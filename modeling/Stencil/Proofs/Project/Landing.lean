import Stencil.Proofs.Disk.Effects
import Stencil.Proofs.Project.Turns

/-!
# Where outputs land

The output of every page lands in a directory that is known from the paths alone, under a name or not
at all.  So a turn in the build of the page makes directories on the way there, or writes this one
file.
-/

namespace Stencil.Project

open Render

variable {layout : Layout} {page : Place} {above : List Name} {html? : Option Name} {disk : Disk}

/-- The output of a page lands in the directory at `above`, under a name if it can be a file. -/
structure Layout.Lands (layout : Layout) (page : Place) (above : List Name)
    (html? : Option Name) : Prop where
  absolute : page.Absolute
  /-- The way there leads towards the directory of the output, or goes on from there. -/
  way : above <+: layout.outDir.names ∨ layout.outDir.names <+: above
  parent : (layout.outputPath page).parent? = some (.fromRoot above) ∨
    above = [] ∧ (layout.outputPath page).parent? = none
  named : ∀ html, html? = some html → layout.outDir.names <+: above ∧
    layout.outputPath page = (Place.mk .root (above ++ [html])).toPath
  unnamed : html? = none → ∀ disk : Disk, disk.Plain →
    disk.target (layout.outputPath page) = .error (disk.refusal (layout.outputPath page) above)

/-- The output of every page lands somewhere. -/
theorem Layout.exists_lands (absolute : layout.Absolute) (pageAbsolute : page.Absolute) :
    ∃ above html?, layout.Lands page above html? := by
  rcases outputPath_shape absolute pageAbsolute with ⟨above, last, puts⟩ | bare
  · have inner := puts.inner
    have steps := puts.steps
    cases last with
    | root => cases inner
    | current => cases inner
    | parent =>
        refine ⟨above, none, pageAbsolute, .inr puts.within, .inl puts.parent?, nofun, fun _ disk plain => ?_⟩
        exact Disk.target_of_parent plain steps
    | name html =>
        refine ⟨above, some html, pageAbsolute, .inr puts.within, .inl puts.parent?, ?_, nofun⟩
        intro other same
        obtain rfl := Option.some.inj same
        refine ⟨puts.within, ?_⟩
        rw [puts.path, (Place.absolute_root _).toPath, Path.fromRoot, List.map_append]
        rfl
  · have steps := Path.steps_join_empty layout.outDir.names
    have components := Path.components_join_empty layout.outDir.names
    rw [absolute.outDir.toPath] at bare
    rw [← bare] at steps components
    refine ⟨layout.outDir.names.dropLast, none, pageAbsolute, .inl (List.dropLast_prefix _), ?_, nofun,
      fun _ disk plain => Disk.target_of_slash plain steps⟩
    rw [Path.parent?, components]
    rcases List.eq_nil_or_concat layout.outDir.names with top | ⟨front, last, split⟩
    · rw [top]
      exact .inr ⟨rfl, rfl⟩
    · left
      rw [split, List.concat_eq_append, List.map_append, ← List.cons_append, List.map_singleton,
        List.getLast?_concat, List.dropLast_concat, List.dropLast_concat]
      rfl

namespace Layout.Lands

variable (lands : layout.Lands page above html?)

include lands

/-- A build writes the output. -/
theorem destination : layout.destination page = layout.outputPath page :=
  destination_eq lands.absolute

theorem makeParents (plain : disk.Plain) :
    ∃ after, disk.makeParents (layout.outputPath page) = ((disk.pavement above).1, after) ∧
      Disk.Paved (disk.pavement above).2 disk after := by
  rcases lands.parent with parent | ⟨rfl, none⟩
  · obtain ⟨outcome, paved⟩ := Disk.makeDirectories_fromRoot plain above
    refine ⟨_, ?_, paved⟩
    rw [Disk.makeParents, parent, ← outcome]
  · have reached : disk.pavement [] = (.ok (), []) := rfl
    refine ⟨disk, by rw [Disk.makeParents, none, reached], ?_⟩
    rw [reached]
    exact .refl disk.get?_root

/-- A file is written at the place where the output lands. -/
theorem of_write (plain : disk.Plain) {content : ByteArray} {after : Disk}
    (wrote : disk.write (layout.outputPath page) content = .ok after) :
    ∃ html, html? = some html ∧ layout.outDir.names <+: above ∧
      layout.outputPath page = (Place.mk .root (above ++ [html])).toPath ∧
        Disk.Develops (fun _ => False)
          (fun location bytes => location = above ++ [html] ∧ bytes = content) disk after ∧
            after.get? (above ++ [html]) = some (.file content) := by
  cases kind : html? with
  | none =>
      rw [Disk.write, lands.unnamed kind disk plain] at wrote
      cases wrote
  | some html =>
      obtain ⟨within, path⟩ := lands.named html kind
      rw [path] at wrote
      obtain ⟨-, -, -, held⟩ := Disk.of_write plain (Place.absolute_root _) wrote
      have develops := Disk.develops_write plain wrote
      rw [Place.ofPath_toPath] at develops
      exact ⟨html, rfl, within, path, develops, held⟩

/-- Directories above the output are made as they are there, when nothing is new afterwards. -/
theorem makeParents_self_iff (plain : disk.Plain) (outcome : Except Disk.Fault Unit) :
    disk.makeParents (layout.outputPath page) = (outcome, disk) ↔
      (disk.pavement above).1 = outcome ∧
        disk.get? (disk.pavement above).2 = some .directory := by
  obtain ⟨after, made, paved⟩ := lands.makeParents plain
  rw [made]
  constructor
  · intro same
    obtain ⟨rfl, rfl⟩ := Prod.mk.inj same
    exact ⟨rfl, paved.directory⟩
  · rintro ⟨rfl, there⟩
    rw [paved.eq_of_directory there]

/-- Directories that were made as far as possible are not made again. -/
theorem makeParents_again (plain : disk.Plain) {outcome : Except Disk.Fault Unit} {after : Disk}
    (made : disk.makeParents (layout.outputPath page) = (outcome, after)) :
    after.makeParents (layout.outputPath page) = (outcome, after) := by
  obtain ⟨same, first, paved⟩ := lands.makeParents plain
  rw [made] at first
  obtain ⟨rfl, rfl⟩ := Prod.mk.inj first
  rw [lands.makeParents_self_iff (paved.plain plain), paved.pavement_eq]
  exact ⟨rfl, paved.directory⟩

/-- A file that still holds what was written is written again without a change. -/
theorem write_again (plain : disk.Plain) {content : ByteArray} {after later : Disk}
    (wrote : disk.write (layout.outputPath page) content = .ok after) (also : later.Plain)
    (stays : ∀ location, layout.outputPath page = (Place.mk .root location).toPath →
      after.get? location = some (.file content) → later.get? location = some (.file content)) :
    later.write (layout.outputPath page) content = .ok later := by
  obtain ⟨html, -, -, path, -, held⟩ := lands.of_write plain wrote
  have reachable : Place.Reachable ⟨.root, above ++ [html]⟩ := by
    rw [path] at wrote
    exact (Disk.of_write plain (Place.absolute_root _) wrote).2.2.1
  have there := stays _ path held
  rw [path]
  exact Disk.write_self also (Place.absolute_root _) reachable there

section Developing

variable {before after : Disk} {made : Disk.Location → Prop}
  {written : Disk.Location → ByteArray → Prop} (plain : before.Plain)
  (develops : Disk.Develops made written before after)

include plain develops

/-- Nor are they made later on. -/
theorem makeParents_later {outcome : Except Disk.Fault Unit}
    (ready : before.makeParents (layout.outputPath page) = (outcome, before)) :
    after.makeParents (layout.outputPath page) = (outcome, after) := by
  rw [lands.makeParents_self_iff plain] at ready
  rw [lands.makeParents_self_iff (develops.plain plain), develops.pavement ready.2]
  exact ⟨ready.1, develops.directory ready.2⟩

/-- An output that is refused where its directory is there is refused later on. -/
theorem write_later {content : ByteArray} {fault : Disk.Fault}
    (ready : before.makeParents (layout.outputPath page) = (.ok (), before))
    (refused : before.write (layout.outputPath page) content = .error fault) :
    after.write (layout.outputPath page) content = .error fault := by
  have later := lands.makeParents_later plain develops ready
  have also := develops.plain plain
  rw [lands.makeParents_self_iff plain] at ready
  rw [lands.makeParents_self_iff also] at later
  obtain ⟨paved, there⟩ := ready
  obtain ⟨pavedLater, thereLater⟩ := later
  rw [(Disk.pavement_ok paved).1] at there
  rw [(Disk.pavement_ok pavedLater).1] at thereLater
  cases kind : html? with
  | none =>
      rw [Disk.write, lands.unnamed kind _ plain, Disk.refusal_of_pavement plain paved there]
        at refused
      rw [Disk.write, lands.unnamed kind _ also, Disk.refusal_of_pavement also pavedLater thereLater]
      exact refused
  | some html =>
      obtain ⟨-, path⟩ := lands.named html kind
      have steps : (layout.outputPath page).steps =
          .along .root :: Disk.along (above ++ [html]) := by
        rw [path, (Place.absolute_root _).toPath, Path.steps_fromRoot (by simp)]
        rfl
      rw [Disk.write, Disk.target_concat plain paved there steps] at refused
      rw [Disk.write, Disk.target_concat also pavedLater thereLater steps]
      cases accepted : (layout.outputPath page).fault?.or (Disk.lengthFault? html) with
      | some fault =>
          rw [accepted] at refused
          exact refused
      | none =>
          rw [accepted] at refused
          dsimp only at refused ⊢
          by_cases occupied : before.get? (above ++ [html]) = some .directory
          · rw [if_pos occupied] at refused
            rw [if_pos (develops.directory occupied)]
            exact refused
          · rw [if_neg occupied] at refused
            cases refused

end Developing

end Layout.Lands

/-- What a build that has rendered its page may write: the output, at its own place. -/
def Stage.Writes (layout : Layout) (page : Place) (stage : Stage) (location : Disk.Location)
    (content : ByteArray) : Prop :=
  ∃ rendered, stage = .prepared rendered ∧ content = rendered.content.toUTF8 ∧
    layout.outputPath page = (Place.mk .root location).toPath ∧
      layout.outDir.names <+: location ∧ location ≠ layout.outDir.names

/-- Directories are made on the way to the directory of the output, and below it. -/
def Layout.OnTheWay (layout : Layout) (location : Disk.Location) : Prop :=
  Place.Reachable ⟨.root, location⟩ ∧
    (location <+: layout.outDir.names ∨ layout.outDir.names <+: location)

/-- A turn makes directories on the way to the output, or writes the output. -/
theorem Site.develops_turn {site : Site} (absolute : site.project.layout.Absolute)
    (pageAbsolute : page.Absolute) (plain : site.disk.Plain) (stage : Stage) :
    Disk.Develops site.project.layout.OnTheWay (stage.Writes site.project.layout page) site.disk
      (site.turn page stage).2.disk := by
  obtain ⟨above, html?, lands⟩ := Layout.exists_lands absolute pageAbsolute
  cases stage with
  | waiting => exact .refl _ _ _
  | rendered rendered =>
      obtain ⟨after, made, paved⟩ := lands.makeParents plain
      rw [turn, lands.destination, made]
      refine (paved.develops plain).mono ?_ fun _ _ => False.elim
      rintro location ⟨reachable, within⟩
      refine ⟨reachable, ?_⟩
      rcases lands.way with before | beyond
      · exact .inl (within.trans before)
      · exact List.prefix_or_prefix_of_prefix within beyond
  | prepared rendered =>
      rw [turn, lands.destination]
      cases wrote : site.disk.write (site.project.layout.outputPath page)
          rendered.content.toUTF8 with
      | error fault => exact .refl _ _ _
      | ok after =>
          obtain ⟨html, -, within, path, develops, -⟩ := lands.of_write plain wrote
          refine develops.mono (fun _ => False.elim) ?_
          rintro location content ⟨rfl, rfl⟩
          refine ⟨rendered, rfl, rfl, path, within.trans (List.prefix_append _ _), fun same => ?_⟩
          have longer := within.length_le
          rw [← same, List.length_append, List.length_singleton] at longer
          omega
  | written rendered => exact .refl _ _ _
  | done outcome => exact .refl _ _ _

end Stencil.Project
