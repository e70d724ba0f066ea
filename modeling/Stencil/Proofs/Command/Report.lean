import Stencil.Proofs.Command.Json
import Stencil.Proofs.Command.Opening

/-!
# What reports tell

A report for people names the files that were written, line by line, and on the channel for errors
the pages that failed.  A report in JSON is an object with the same names and with the messages of
the errors.  Files below the root of the project are named from there.
-/

namespace Stencil

namespace Path

variable {root : Path} {base inside : List Name}

theorem isBlankPiece_of_mem_piecesOf {names : List Name} {piece : List Char}
    (member : piece ∈ piecesOf names) : isBlankPiece piece = false := by
  obtain ⟨name, -, rfl⟩ := List.mem_map.mp member
  have noDot : name.text.toList ≠ ['.'] := fun dot => name.ne_current (String.toList_inj.mp dot)
  simp [isBlankPiece, name.ne_empty, noDot]

/-- Names are dropped from the beginning of others one by one. -/
theorem dropComponents_piecesOf (base inside : List Name) :
    dropComponents base.length (piecesOf (base ++ inside)) = piecesOf inside := by
  induction base with
  | nil => cases inside <;> rfl
  | cons first base ih =>
      have filled : isBlankPiece first.text.toList = false :=
        @isBlankPiece_of_mem_piecesOf [first] _ List.mem_cons_self
      rw [List.length_cons, List.cons_append, piecesOf_cons, dropComponents,
        if_neg (by simp [filled]), ih]

theorem trimList_piecesOf (names : List Name) :
    Text.trimList isBlankPiece (piecesOf names) = piecesOf names := by
  have kept : ∀ pieces : List (List Char), (∀ piece ∈ pieces, isBlankPiece piece = false) →
      pieces.dropWhile isBlankPiece = pieces := by
    intro pieces filled
    cases pieces with
    | nil => rfl
    | cons first rest => rw [List.dropWhile_cons_of_neg (by simp [filled first List.mem_cons_self])]
  have filled : ∀ piece ∈ piecesOf names, isBlankPiece piece = false :=
    fun _ => isBlankPiece_of_mem_piecesOf
  rw [Text.trimList, kept _ filled, kept _ fun piece member => filled piece (by simpa using member),
    List.reverse_reverse]

/-- What is left of a path behind the names that it begins with. -/
theorem relativeTo?_fromRoot (rooted : root.components = .root :: base.map .name) :
    (fromRoot (base ++ inside)).relativeTo? root = some (ofComponents (inside.map .name)) := by
  have begins : root.components.isPrefixOf (fromRoot (base ++ inside)).components = true := by
    rw [List.isPrefixOf_iff_prefix, rooted, components_fromRoot, List.map_append]
    exact List.prefix_append _ _
  have length : root.components.length = base.length + 1 := by
    rw [rooted, List.length_cons, List.length_map]
  rw [relativeTo?, if_pos begins, opening_fromRoot, length, ofComponents_names]
  dsimp only
  rw [Option.isSome_some, if_pos rfl]
  by_cases top : base ++ inside = []
  · obtain ⟨rfl, rfl⟩ := List.append_eq_nil_iff.mp top
    rfl
  · rw [pieces_joined top, dropComponents_piecesOf, trimList_piecesOf]

theorem joined_eq_intercalate (all : List (List Char)) : joined all = ['/'].intercalate all := by
  induction all with
  | nil => rfl
  | cons first rest ih =>
      cases rest with
      | nil => exact List.intercalate_singleton.symm
      | cons next others =>
          rw [List.intercalate_cons_cons, List.append_assoc, ← ih]
          rfl

theorem text_ofComponents_names (names : List Name) :
    (ofComponents (names.map .name)).text = "/".intercalate (names.map Name.text) := by
  rw [ofComponents_names, ← String.toList_inj, String.toList_intercalate, joined_eq_intercalate]
  simp [piecesOf, Function.comp_def]

end Path

namespace Command

open Project

variable {root path : Path} {report : Report}

/-- How a file is named in a report: from the root of the project when it lies there, and in full
otherwise. -/
inductive Designates (root path : Path) : String → Prop where
  | below (inside : List Name) :
      path.components = root.components ++ inside.map .name →
      Designates root path ("/".intercalate (inside.map Name.text))
  | elsewhere : ¬root.components <+: path.components → Designates root path path.text

/-- A path from the root of the disk that takes names only. -/
def Straight (path : Path) : Prop :=
  ∃ place : Place, place.Absolute ∧ path = place.toPath

theorem designates_shown (rooted : root.isAbsolute = true) (straight : Straight path) :
    Designates root path (shown root path) := by
  obtain ⟨place, absolute, rfl⟩ := straight
  rw [absolute.toPath]
  generalize place.names = names
  obtain ⟨rest, components⟩ := Path.components_of_isAbsolute rooted
  by_cases begins : root.components <+: (Path.fromRoot names).components
  · obtain ⟨others, same⟩ := begins
    rw [components, Path.components_fromRoot, List.cons_append, List.cons.injEq] at same
    obtain ⟨base, inside, rfl, rfl, rfl⟩ := List.map_eq_append_iff.mp same.2.symm
    rw [shown, Path.relativeTo?_fromRoot components, Option.getD_some,
      Path.text_ofComponents_names]
    refine .below inside ?_
    rw [components, Path.components_fromRoot, List.map_append, List.cons_append]
  · have apart : (Path.fromRoot names).relativeTo? root = none := by
      rw [Path.relativeTo?, if_neg]
      rwa [List.isPrefixOf_iff_prefix]
    rw [shown, apart]
    exact .elsewhere begins

/-- All files that a report names have straight paths. -/
structure Lists (report : Report) : Prop where
  written : ∀ path ∈ report.written, Straight path
  failures : ∀ failure ∈ report.failures, Straight failure.source

/-- What a build prints about its report, and the code it ends with.  The files that were written
and the pages that failed go by names, in order. -/
structure Tells (root : Path) (format : Format) (report : Report) (written failed : List String)
    (ended : Run) : Prop where
  namesWritten : List.Forall₂ (Designates root) report.written written
  namesFailed :
    List.Forall₂ (fun failure => Designates root failure.source) report.failures failed
  nothing : format = .text → written = [] → failed = [] →
    ended.output = "No build files found.\n"
  text : format = .text → written ≠ [] ∨ failed ≠ [] →
    ended.output = String.join (written.map fun name => "  built " ++ name ++ "\n") ++
      ("Built " ++ toString written.length ++ " file(s)" ++
        (if failed = [] then "" else ", " ++ toString failed.length ++ " failed") ++ ".\n")
  /-- The pages that failed are on the channel for errors. -/
  notes : format = .text → ended.notes = failed.map ("  failed " ++ ·)
  json : format = .json → ended.notes = [] ∧
    Json.Spells ended.output (.object [("ok", .bool (decide (failed = []))),
      ("written", .list (written.map .text)),
      ("failures", .list (List.zipWith (fun name failure =>
        .object [("source", .text name), ("error", .text failure.error.message)])
          failed report.failures))])
  code : ended.exitCode = some (if failed = [] then 0 else 1)

theorem writes_failureJson (root : Path) (failure : Failure) :
    Json.Writes Json.Reads
      (.object [("source", .text (shown root failure.source)),
        ("error", .text failure.error.message)])
      (failureJson root failure) := by
  apply Json.writes_object
  exact .cons (Json.writes_jsonMember _ (Json.writes_quoted _))
    (.cons (Json.writes_jsonMember _ (Json.writes_quoted _)) .nil)

theorem writes_reportJson (root : Path) (report : Report) :
    Json.Writes Json.Reads
      (.object [("ok", .bool report.isOk),
        ("written", .list ((report.written.map (shown root)).map .text)),
        ("failures", .list (List.zipWith (fun name failure =>
          .object [("source", .text name), ("error", .text failure.error.message)])
            (report.failures.map fun failure => shown root failure.source) report.failures))])
      (reportJson root report) := by
  rw [List.zipWith_map_left, List.zipWith_self, List.map_map]
  apply Json.writes_object
  refine .cons (Json.writes_jsonMember _ (Json.writes_bool _))
    (.cons (Json.writes_jsonMember _ (Json.writes_list ?_ 1))
      (.cons (Json.writes_jsonMember _ (Json.writes_list ?_ 1)) .nil))
  · rw [List.forall₂_map_left_iff, List.forall₂_map_right_iff, List.forall₂_same]
    exact fun path _ => Json.writes_quoted _
  · rw [List.forall₂_map_left_iff, List.forall₂_map_right_iff, List.forall₂_same]
    exact fun failure _ => writes_failureJson root failure

theorem unlines_append (first second : List String) :
    unlines (first ++ second) = unlines first ++ unlines second := by
  rw [unlines, List.map_append, String.join_append]
  rfl

theorem unlines_singleton (line : String) : unlines [line] = line ++ "\n" :=
  String.empty_append

theorem spells_line {value : Json} {text : String} (writes : Json.Writes Json.Reads value text) :
    Json.Spells (unlines [text]) value := by
  refine ⟨_, ['\n'], .nil, ?_, .cons (.inr (.inr (.inl rfl))) .nil⟩
  rw [unlines_singleton, String.toList_append]
  exact writes _

theorem isOk_eq_decide (report : Report) : report.isOk = decide (report.failures = []) := by
  rw [Report.isOk, Bool.eq_iff_iff, List.isEmpty_iff, decide_eq_true_eq]

theorem summary_line (report : Report) :
    summary report ++ "\n" = "Built " ++ toString report.written.length ++ " file(s)" ++
      (if report.failures = [] then ""
        else ", " ++ toString report.failures.length ++ " failed") ++ ".\n" := by
  rw [summary, isOk_eq_decide, ← String.toList_inj]
  by_cases all : report.failures = [] <;> simp [all]

theorem output_text (root : Path) (report : Report) (site : Site)
    (filled : report.written ≠ [] ∨ report.failures ≠ []) :
    (finished root .text report site).output =
      String.join ((report.written.map (shown root)).map fun name => "  built " ++ name ++ "\n") ++
        (summary report ++ "\n") := by
  have lines : ¬(report.written.isEmpty && report.failures.isEmpty) = true := by
    simpa [Decidable.or_iff_not_imp_left] using filled
  rw [finished]
  dsimp only
  rw [reportLines, if_neg lines, unlines_append, unlines_singleton, unlines, List.map_map,
    List.map_map]
  rfl

/-- What is printed at the end of a build is what its report tells. -/
theorem finished_tells (rooted : root.isAbsolute = true) (lists : Lists report) (format : Format)
    (site : Site) :
    Tells root format report (report.written.map (shown root))
      (report.failures.map fun failure => shown root failure.source)
      (finished root format report site) := by
  constructor
  · rw [List.forall₂_map_right_iff, List.forall₂_same]
    exact fun path member => designates_shown rooted (lists.written path member)
  · rw [List.forall₂_map_right_iff, List.forall₂_same]
    exact fun failure member => designates_shown rooted (lists.failures failure member)
  · rintro rfl written failed
    rw [List.map_eq_nil_iff] at written failed
    simp [finished, reportLines, written, failed, unlines, String.join]
  · rintro rfl filled
    rw [Ne, Ne, List.map_eq_nil_iff, List.map_eq_nil_iff] at filled
    rw [output_text root report site filled, summary_line, List.length_map, List.length_map]
    simp only [List.map_eq_nil_iff]
  · rintro rfl
    rw [List.map_map]
    rfl
  · rintro rfl
    refine ⟨rfl, ?_⟩
    simp only [List.map_eq_nil_iff, ← isOk_eq_decide]
    exact spells_line (writes_reportJson root report)
  · simp [finished, isOk_eq_decide]

end Command

end Stencil
