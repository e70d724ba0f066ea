import Stencil.Proofs.Disk.Saving
import Stencil.Proofs.Project.Descents

/-!
# Calls of a search

A search calls itself for the directories that it descends into.  The calls are noted here together
with the outcome of the search, each with the number of calls that it stands inside of, so that
their depth can be told.
-/

namespace Stencil.Project.Layout

/-- A call of the search of a directory, inside of a number of other calls. -/
structure Call where
  depth : Nat
  directory : Place

/-- The calls that an operation makes, and its outcome. -/
abbrev Traced :=
  List Call × Except Error (List Place)

/-- Take a step for one item after the other until a step fails, and gather what they give. -/
def traceEach {α : Type} (step : α → Traced) : List α → Traced
  | [] => ([], .ok [])
  | item :: rest =>
      match step item with
      | (calls, .error error) => (calls, .error error)
      | (calls, .ok found) =>
          let (others, outcome) := traceEach step rest
          (calls ++ others, outcome.map (found ++ ·))

section Definitions

variable (layout : Layout) (disk : Disk)

/-- The pages at an entry of a directory, with the calls that are made for them. -/
def traceAt (enter : Place → Traced) (directory : Place) (name : Name) : Traced :=
  let entry := directory.child name
  if layout.passesOver disk entry name then ([], .ok [])
  else if disk.isDirectory entry.toPath then enter entry
  else ([], .ok (if layout.namesPage entry.toPath then [entry] else []))

/-- The pages in a directory, with the calls that are made for them. -/
def traceIn (names : Disk.Location → List Name)
    (enter : (above : List Path) → Place → Traced)
    (depth : Nat) (above : List Path) (directory : Place) : Traced :=
  let path := disk.canonical directory.toPath
  let inside : Traced :=
    if path ∈ above then ([], .error (.linkCycle directory))
    else
      match disk.find directory.toPath with
      | .error fault => ([], .error (.disk fault))
      | .ok location =>
          if disk.get? location ≠ some .directory then ([], .error (.disk .notADirectory))
          else traceEach (layout.traceAt disk (enter (path :: above)) directory) (names location)
  (⟨depth, directory⟩ :: inside.1, inside.2)

/-- A search with the calls that it makes. -/
def trace (names : Disk.Location → List Name) :
    (levels depth : Nat) → (above : List Path) → Place → Traced
  | 0, depth => layout.traceIn disk names (fun _ _ => ([], .ok [])) depth
  | levels + 1, depth => layout.traceIn disk names (trace names levels (depth + 1)) depth

end Definitions

variable {layout : Layout} {disk : Disk} {levels : Nat} {directory : Place}
  {above : List Path} {listing : Disk.Location → List Name}

section Outcome

theorem traceEach_outcome {α : Type} (step : α → Traced) (items : List α) :
    (traceEach step items).2 = (items.mapM fun item => (step item).2).map List.flatten := by
  induction items with
  | nil => rfl
  | cons item rest ih =>
      rw [traceEach, List.mapM_cons]
      rcases step item with ⟨calls, error | found⟩
      · rfl
      · dsimp only
        rw [ih]
        cases rest.mapM fun item => (step item).2 <;> rfl

theorem traceAt_outcome (enter : Place → Traced) (directory : Place) (name : Name) :
    (layout.traceAt disk enter directory name).2 =
      layout.pagesAt disk (fun entry => (enter entry).2) directory name := by
  unfold traceAt pagesAt
  dsimp only
  split
  · rfl
  · split <;> rfl

theorem traceIn_outcome (enter : List Path → Place → Traced) (depth : Nat)
    (above : List Path) (directory : Place) :
    (layout.traceIn disk listing enter depth above directory).2 =
      layout.pagesIn disk listing (fun above entry => (enter above entry).2) above directory := by
  unfold traceIn pagesIn
  dsimp only
  split
  · rfl
  · cases disk.find directory.toPath with
    | error fault => rfl
    | ok location =>
        dsimp only
        split
        · rfl
        · rw [traceEach_outcome]
          simp only [traceAt_outcome]
          rfl

/-- The calls are those of the search: noting them does not change the outcome. -/
theorem trace_outcome (levels depth : Nat) (above : List Path) (directory : Place) :
    (layout.trace disk listing levels depth above directory).2 =
      layout.search disk listing levels above directory := by
  induction levels generalizing depth above directory with
  | zero => exact traceIn_outcome _ depth above directory
  | succ levels ih =>
      rw [trace, search, traceIn_outcome]
      simp only [ih]

end Outcome

section Calls

/-- A call stands for a directory that the search enters, by way of directories that it comes to for
the first time. -/
def Call.Descends (layout : Layout) (disk : Disk) (levels depth : Nat) (above : List Path)
    (directory : Place) (call : Call) : Prop :=
  ∃ inside, layout.Enters disk levels directory inside ∧
    call = ⟨depth + inside.length, directory.below inside⟩ ∧
      ∀ count < inside.length, ¬Noticed disk above directory (inside.take count)

theorem mem_traceEach {α : Type} {step : α → Traced} {items : List α} {call : Call}
    (member : call ∈ (traceEach step items).1) : ∃ item ∈ items, call ∈ (step item).1 := by
  induction items with
  | nil => cases member
  | cons item rest ih =>
      rw [traceEach] at member
      cases ran : step item with
      | mk calls outcome =>
          rw [ran] at member
          have here : ∀ {call}, call ∈ calls → ∃ other ∈ item :: rest, call ∈ (step other).1 :=
            fun among => ⟨item, List.mem_cons_self, by rw [ran]; exact among⟩
          cases outcome with
          | error error => exact here member
          | ok found =>
              rcases List.mem_append.mp member with among | later
              · exact here among
              · obtain ⟨other, listed, among⟩ := ih later
                exact ⟨other, List.mem_cons_of_mem _ listed, among⟩

/-- Steps that all succeed have been taken for all items. -/
theorem traceEach_of_ok {α : Type} {step : α → Traced} {items : List α} {all : List Place}
    (ran : (traceEach step items).2 = .ok all) :
    ∀ item ∈ items, (∃ found, (step item).2 = .ok found) ∧
      ∀ call ∈ (step item).1, call ∈ (traceEach step items).1 := by
  induction items generalizing all with
  | nil => exact fun _ member => absurd member List.not_mem_nil
  | cons item rest ih =>
      rw [traceEach] at ran ⊢
      cases here : step item with
      | mk calls outcome =>
          rw [here] at ran
          cases outcome with
          | error error => cases ran
          | ok found =>
              cases later : (traceEach step rest).2 with
              | error error =>
                  simp only [later] at ran
                  cases ran
              | ok others =>
                  refine List.forall_mem_cons.mpr ⟨?_, fun other listed => ?_⟩
                  · rw [here]
                    exact ⟨⟨found, rfl⟩, fun call among => List.mem_append_left _ among⟩
                  · obtain ⟨succeeds, noted⟩ := ih later other listed
                    exact ⟨succeeds, fun call among => List.mem_append_right _ (noted call among)⟩

variable (lists : ∀ location, (listing location).Perm (disk.names location))

include lists

theorem descends_traceIn {enter : List Path → Place → Traced} {depth : Nat} {call : Call}
    (inner : ∀ {path name call}, call ∈ (enter (path :: above) (directory.child name)).1 →
      ∃ fewer, levels = fewer + 1 ∧
        call.Descends layout disk fewer (depth + 1) (path :: above) (directory.child name))
    (member : call ∈ (layout.traceIn disk listing enter depth above directory).1) :
    call.Descends layout disk levels depth above directory := by
  rcases List.mem_cons.mp member with rfl | later
  · exact ⟨[], .here, by simp, nofun⟩
  split at later
  · cases later
  next fresh =>
    cases located : disk.find directory.toPath with
    | error fault => simp [located] at later
    | ok location =>
        simp only [located] at later
        split at later
        · cases later
        obtain ⟨name, listed, among⟩ := mem_traceEach later
        rw [traceAt] at among
        split at among
        · cases among
        next clear =>
          split at among
          next there =>
            obtain ⟨fewer, rfl, inside, enters, rfl, first⟩ := inner among
            refine ⟨name :: inside, .inside located ((lists location).mem_iff.mp listed)
              (Bool.eq_false_iff.mpr clear) there enters, ?_, ?_⟩
            · rw [Place.below_cons, List.length_cons, Nat.add_right_comm, Nat.add_assoc]
            · rintro (_ | count) less back
              · exact fresh (noticed_nil.mp back)
              · rw [List.take_succ_cons, noticed_cons] at back
                exact first count (by simpa using less) back
          · cases among

/-- Every call of a search stands for a directory that the search enters. -/
theorem descends_trace {depth : Nat} {call : Call}
    (member : call ∈ (layout.trace disk listing levels depth above directory).1) :
    call.Descends layout disk levels depth above directory := by
  induction levels generalizing depth above directory call with
  | zero => exact descends_traceIn lists (fun among => absurd among List.not_mem_nil) member
  | succ levels ih => exact descends_traceIn lists (fun among => ⟨levels, rfl, ih among⟩) member

/-- A search that succeeds has made a call for every directory that it enters. -/
theorem mem_trace {inside : List Name} (enters : layout.Enters disk levels directory inside)
    {depth : Nat} {all : List Place}
    (ran : (layout.trace disk listing levels depth above directory).2 = .ok all) :
    ⟨depth + inside.length, directory.below inside⟩ ∈
      (layout.trace disk listing levels depth above directory).1 := by
  induction enters generalizing depth above all with
  | @here levels directory =>
      rw [Place.below_nil]
      cases levels <;> exact List.mem_cons_self
  | @inside levels directory location name inside located member clear there _ ih =>
      rw [trace, traceIn] at ran ⊢
      dsimp only at ran ⊢
      split at ran
      · cases ran
      simp only [located] at ran ⊢
      split at ran
      · cases ran
      next fresh held =>
        rw [if_neg fresh, if_neg held]
        obtain ⟨⟨found, succeeds⟩, noted⟩ :=
          traceEach_of_ok ran name ((lists location).mem_iff.mpr member)
        have entered : layout.traceAt disk
            (trace layout disk listing levels (depth + 1)
              (disk.canonical directory.toPath :: above)) directory name =
              layout.trace disk listing levels (depth + 1)
                (disk.canonical directory.toPath :: above) (directory.child name) := by
          rw [traceAt, if_neg (by rw [clear]; exact Bool.false_ne_true), if_pos there]
        rw [entered] at succeeds noted
        have inner := noted _ (ih succeeds)
        rw [Place.below_cons, List.length_cons, Nat.add_comm inside.length, ← Nat.add_assoc]
        exact List.mem_cons_of_mem _ inner

end Calls

/-- A search of a directory is never in more directories than have canonical paths of their own, and
fails only when it notices one that it is in already.  Otherwise it lists all pages in the directories
that it enters, by way of links as well.  It notices no directory that it is not in, and every one that
it is in where the canonical paths on the way can be worked out. -/
theorem search_descends (found : disk.isDirectory directory.toPath = true)
    (lists : ∀ location, (listing location).Perm (disk.names location)) :
    let levels := layout.scanDepth.toNat
    let outcome := layout.search disk listing levels [] directory
    let calls := (layout.trace disk listing levels 0 [] directory).1
    (layout.trace disk listing levels 0 [] directory).2 = outcome ∧
      (∀ call ∈ calls, call.depth ≤ levels ∧ call.depth < UInt64.size ∧
        call.depth + 1 ≤ (layout.tracked disk levels directory).ncard + 1) ∧
      ((∃ place, outcome = .error (.linkCycle place)) ↔
        ∃ inside, layout.Enters disk levels directory inside ∧ Noticed disk [] directory inside) ∧
      (∀ place, outcome = .error (.linkCycle place) → ∃ inside, place = directory.below inside ∧
        layout.Enters disk levels directory inside ∧ Noticed disk [] directory inside) ∧
      ((¬∃ inside, layout.Enters disk levels directory inside ∧ Noticed disk [] directory inside) →
        ∃ pages, outcome = .ok pages ∧
          (∀ page, page ∈ pages ↔ layout.Shows disk levels directory page) ∧
          ∀ call, call ∈ calls ↔ ∃ inside, layout.Enters disk levels directory inside ∧
            call = ⟨inside.length, directory.below inside⟩) ∧
      (∀ inside, layout.Enters disk levels directory inside →
        (Noticed disk [] directory inside → Returns disk directory inside) ∧
        ((∀ count, disk.Canonicalizes (directory.below (inside.take count)).toPath) →
          Returns disk directory inside → Noticed disk [] directory inside)) ∧
      ((∀ inside, layout.Enters disk levels directory inside →
          disk.Canonicalizes (directory.below inside).toPath) →
        (layout.tracked disk levels directory).ncard =
          (layout.entered disk levels directory).ncard) := by
  intro levels outcome calls
  have told : layout.Told disk levels [] directory outcome := told_search lists found
  have cycles : ∀ place, outcome = .error (.linkCycle place) →
      ∃ inside, place = directory.below inside ∧
        layout.Enters disk levels directory inside ∧ Noticed disk [] directory inside := by
    intro place failed
    rw [failed] at told
    cases told with
    | cycle enters back => exact ⟨_, rfl, enters, back⟩
  have traced : (layout.trace disk listing levels 0 [] directory).2 = outcome :=
    trace_outcome levels 0 [] directory
  refine ⟨traced, ?_, ⟨?_, ?_⟩, cycles, ?_, fun inside enters => ⟨enters.returns_of_noticed found,
    noticed_of_returns⟩, ncard_tracked⟩
  · intro call member
    obtain ⟨inside, enters, rfl, first⟩ := descends_trace lists member
    have shallow := enters.length_le
    have bounded := enters.length_le_ncard first
    have fits := layout.scanDepth.toNat_lt
    simp only [Nat.zero_add]
    exact ⟨shallow, Nat.lt_of_le_of_lt shallow fits, Nat.succ_le_succ bounded⟩
  · rintro ⟨place, failed⟩
    obtain ⟨inside, -, back⟩ := cycles place failed
    exact ⟨inside, back⟩
  · rintro ⟨inside, enters, back⟩
    generalize outcome = result at told
    cases told with
    | cycle => exact ⟨_, rfl⟩
    | pages fresh => exact absurd back (fresh inside enters)
  · intro acyclic
    generalize outcome = result at told traced
    cases told with
    | cycle enters back => exact absurd ⟨_, enters, back⟩ acyclic
    | pages _ shown =>
        refine ⟨_, rfl, shown, fun call => ⟨fun member => ?_, ?_⟩⟩
        · obtain ⟨inside, enters, same, -⟩ := descends_trace lists member
          rw [Nat.zero_add] at same
          exact ⟨inside, enters, same⟩
        · rintro ⟨inside, enters, rfl⟩
          have noted := mem_trace lists enters traced
          rwa [Nat.zero_add] at noted

/-- A project at `/r` that may be searched down to any level. -/
def unlimited : Layout where
  root := .ofPath ⟨"/r"⟩
  outDir := .ofPath ⟨"/r/o"⟩
  extension := ".p"
  scanDepth := -1
  exclude := []
  dialect := {}
  room := 16

/-- A page in one of two directories, and a link to that directory in the other one. -/
def linkedFiles : Disk :=
  let disk := Disk.ofFiles [(⟨"/r/d/i.p"⟩, "1"), (⟨"/r/e/j"⟩, "2")]
  (disk.addLink ⟨"/r/e/f"⟩ ⟨"../d"⟩).toOption.getD disk

/-- The same directories, with a link in the first one to the other one as well. -/
def loopedFiles : Disk :=
  (linkedFiles.addLink ⟨"/r/d/g"⟩ ⟨"/r/e"⟩).toOption.getD linkedFiles

/-- A link to a directory that the search is not in shows the page in there once more.  Two links
that lead to each other's directories bring the search back. -/
theorem search_descends_looped :
    let levels := unlimited.scanDepth.toNat
    let root := unlimited.root
    (∃ pages, unlimited.search linkedFiles linkedFiles.names levels [] root = .ok pages ∧
      .ofPath ⟨"/r/d/i.p"⟩ ∈ pages ∧ .ofPath ⟨"/r/e/f/i.p"⟩ ∈ pages) ∧
    (¬∃ inside, unlimited.Enters linkedFiles levels root inside ∧
      Returns linkedFiles root inside) ∧
    ∃ inside, unlimited.search loopedFiles loopedFiles.names levels [] root =
        .error (.linkCycle (root.below inside)) ∧
      unlimited.Enters loopedFiles levels root inside ∧ Returns loopedFiles root inside := by
  intro levels root
  have start : linkedFiles.isDirectory root.toPath = true := by decide +kernel
  obtain ⟨-, -, cycles, -, lists, notices, -⟩ := @search_descends unlimited linkedFiles root
    linkedFiles.names start fun _ => .refl _
  obtain ⟨-, -, loops, returns, told, real, -⟩ := @search_descends unlimited loopedFiles root
    loopedFiles.names (by decide +kernel) fun _ => .refl _
  have listed : (unlimited.search linkedFiles linkedFiles.names levels [] root).toOption =
      some [.ofPath ⟨"/r/d/i.p"⟩, .ofPath ⟨"/r/e/f/i.p"⟩] := by
    decide +kernel
  have lost : (unlimited.search loopedFiles loopedFiles.names levels [] root).toOption = none := by
    decide +kernel
  have close : ∀ found ∈ linkedFiles.entries.toList, Disk.Location.size found.1 < Path.sizeLimit := by
    decide +kernel
  have unnoticed : ¬∃ inside, unlimited.Enters linkedFiles levels root inside ∧
      Noticed linkedFiles [] root inside := by
    intro back
    obtain ⟨place, failed⟩ := cycles.mpr back
    rw [failed] at listed
    cases listed
  have cyclic : ∃ inside, unlimited.Enters loopedFiles levels root inside ∧
      Noticed loopedFiles [] root inside := by
    by_contra never
    obtain ⟨pages, ran, -⟩ := told never
    rw [ran] at lost
    cases lost
  refine ⟨?_, ?_, ?_⟩
  · obtain ⟨pages, ran, -⟩ := lists unnoticed
    rw [ran] at listed
    cases listed
    exact ⟨_, ran, by simp, by simp⟩
  · rintro ⟨inside, enters, back⟩
    refine unnoticed ⟨inside, enters, (notices inside enters).2 (fun count => ?_) back⟩
    obtain ⟨_, arrived, -⟩ := Disk.exists_find_of_isDirectory ((enters.take count).isDirectory start)
    exact Disk.canonicalizes_of_close close arrived
  · obtain ⟨place, failed⟩ := loops.mpr cyclic
    obtain ⟨inside, rfl, enters, noticed⟩ := returns place failed
    exact ⟨inside, failed, enters, (real inside enters).1 noticed⟩

/-- Both canonical paths are spelled as the search comes to them, and the link is not noticed. -/
theorem not_noticed_far : ¬Noticed Disk.farLoop [] (Disk.behind []) [Disk.loop] := by
  intro noticed
  obtain ⟨count, fewer, same⟩ := noticed.resolve_left List.not_mem_nil
  obtain rfl : count = 0 := Nat.lt_one_iff.mp fewer
  obtain ⟨found, back⟩ := Disk.find_behind
  have far : Path.sizeLimit ≤ Disk.Location.size Disk.summit := Nat.le_of_eq Disk.size_summit.symm
  rw [List.take_zero, Place.below_nil, Disk.below_behind, Disk.canonical_of_far found far,
    Disk.canonical_of_far back far] at same
  have places := congrArg Place.ofPath same
  rw [Place.ofPath_toPath, Place.ofPath_toPath] at places
  exact ne_of_apply_ne (·.names.length) (by simp [Disk.behind]) places

/-- One level down from the summit there is only the link. -/
theorem Enters.of_far {inside : List Name}
    (enters : layout.Enters Disk.farLoop 1 (Disk.behind []) inside) :
    inside = [] ∨ inside = [Disk.loop] := by
  have short := enters.length_le
  cases enters with
  | here => exact .inl rfl
  | @inside _ _ _ name rest located member =>
      obtain rfl : rest = [] := List.eq_nil_of_length_eq_zero (by simpa using short)
      obtain rfl := Except.ok.inj (Disk.find_behind.1.symm.trans located)
      exact .inr (congrArg ([·]) (Disk.mem_names_summit.mp member))

/-- A directory that lies too far from the root holds a link to itself, which a search enters without
noticing it. -/
theorem search_misses_loop :
    let layout : Layout := { unlimited with scanDepth := 1 }
    let levels := layout.scanDepth.toNat
    let start := Disk.behind []
    (∃ inside, layout.Enters Disk.farLoop levels start inside ∧
      Returns Disk.farLoop start inside) ∧
    ∃ pages, layout.search Disk.farLoop Disk.farLoop.names levels [] start = .ok pages := by
  intro layout levels start
  obtain ⟨found, back⟩ := Disk.find_behind
  have below : start.below [Disk.loop] = Disk.behind [Disk.loop] := Disk.below_behind
  have child : start.child Disk.loop = Disk.behind [Disk.loop] := below
  have member : Disk.loop ∈ Disk.farLoop.names Disk.summit := Disk.mem_names_summit.mpr rfl
  have clear : layout.passesOver Disk.farLoop (start.child Disk.loop) Disk.loop = false := by
    have hidden : isSkipped Disk.loop.text = false := by decide +kernel
    have other : start.child Disk.loop ≠ layout.outDir :=
      ne_of_apply_ne (·.names.length) (by decide)
    rw [passesOver, hidden, decide_eq_false other]
    rfl
  have inner : Disk.farLoop.isDirectory (start.child Disk.loop).toPath = true := by
    rw [child]
    exact Disk.isDirectory_of_find back Disk.get?_farLoop_summit
  refine ⟨⟨[Disk.loop], .inside found member clear inner .here, 0, by decide, ?_⟩, ?_⟩
  · rw [List.take_zero, Place.below_nil, found, below, back]
  · have told : layout.Told Disk.farLoop levels [] start
        (layout.search Disk.farLoop Disk.farLoop.names levels [] start) :=
      told_search (fun _ => .refl _) (Disk.isDirectory_of_find found Disk.get?_farLoop_summit)
    generalize layout.search Disk.farLoop Disk.farLoop.names levels [] start = outcome at told
    cases told with
    | pages => exact ⟨_, rfl⟩
    | cycle enters noticed =>
        rcases Enters.of_far enters with rfl | rfl
        · rcases noticed with above | ⟨count, fewer, -⟩
          · cases above
          · exact absurd fewer (Nat.not_lt_zero count)
        · exact absurd noticed not_noticed_far

end Stencil.Project.Layout
