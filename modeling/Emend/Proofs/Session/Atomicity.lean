import Emend.Proofs.Edit.Mutation
import Emend.Session

/-!
# Session edits are atomic

An edit of a session changes every unit or none. For a mutation this rests on the
check: what passes it can be edited (`Mutation.apply_eq_ok_iff`), so the editing pass
never stops half-way (`editAll_apply`). Any other edit may stop half-way, and may leave
the unit that refused in any state; it is taken back from a copy of the units, which
puts back everything since an edit touches nothing but the unit (`editAll_frame`,
`putBack_frame`).
-/

set_option autoImplicit false

namespace Emend

namespace LoadedUnit

/-- Nothing but the unit itself differs. -/
def SameFrame (loaded edited : LoadedUnit) : Prop := edited = { loaded with unit := edited.unit }

theorem SameFrame.refl (loaded : LoadedUnit) : SameFrame loaded loaded := rfl

/-- However far the edits got, only units were touched. -/
theorem editAll_frame {σ : Type} (edit : σ → SourceUnit → σ × SourceUnit × Except EditError Nat)
    (state : σ) (units : List LoadedUnit) :
    List.Forall₂ SameFrame units (editAll edit state units).1 := by
  induction units generalizing state with
  | nil => exact .nil
  | cons loaded others ih =>
      unfold editAll
      split
      · exact .cons rfl (List.forall₂_same.2 fun other _ => .refl other)
      · rename_i next unit count _
        exact .cons rfl (ih next)

theorem putBack_frame {units edited : List LoadedUnit}
    (frame : List.Forall₂ SameFrame units edited) : putBack edited (units.map (·.unit)) = units := by
  induction frame with
  | nil => rfl
  | cons same _ ih =>
      rw [SameFrame] at same
      rw [same]
      exact congrArg (_ :: ·) ih

/-- The unit after a mutation that its check let pass. -/
def mutated (mutation : Mutation) (loaded : LoadedUnit) : LoadedUnit :=
  { loaded with unit := (mutation.edit loaded.unit).1 }

/-- **The editing pass never fails** once every unit has passed the check. -/
theorem editAll_apply {mutation : Mutation} {units : List LoadedUnit}
    (passed : ∀ loaded ∈ units, mutation.check loaded.unit = .ok ()) :
    editAll (fun _ unit => ((), unit.edit mutation.apply)) () units =
      (units.map (mutated mutation),
        .ok (total (fun loaded => (mutation.edit loaded.unit).2) units)) := by
  induction units with
  | nil => rfl
  | cons loaded others ih =>
      have applied : mutation.apply loaded.unit = .ok (mutation.edit loaded.unit) :=
        Mutation.apply_eq_ok_iff.2 ⟨passed loaded (by simp), rfl⟩
      have rest := ih fun other mem => passed other (List.mem_cons_of_mem _ mem)
      rw [editAll]
      simp only [SourceUnit.edit, applied]
      simp only [SourceUnit.edit] at rest
      simp only [rest, List.map_cons, total_cons, Except.map, mutated]

end LoadedUnit

namespace Session

open LoadedUnit (SameFrame)

theorem forM_eq_ok_iff {α : Type} {check : α → Except EditError Unit} {units : List α} :
    units.forM check = .ok () ↔ ∀ loaded ∈ units, check loaded = .ok () := by
  induction units with
  | nil => simp [pure, Except.pure]
  | cons loaded others ih =>
      rw [List.forall_mem_cons, ← ih, List.forM_eq_forM, List.forM_cons]
      cases check loaded with
      | error error => simp [bind, Except.bind]
      | ok done => simp [bind, Except.bind]

/-- A mutation is refused by the checking pass, before anything is edited, or applied to
every unit. -/
theorem apply_cases (session : Session) (mutation : Mutation) :
    (∃ error, session.apply mutation = (session, .error error) ∧
        ∃ loaded ∈ session.units, mutation.check loaded.unit ≠ .ok ()) ∨
      (∀ loaded ∈ session.units, mutation.check loaded.unit = .ok ()) ∧
        session.apply mutation =
          ({ session with units := session.units.map (LoadedUnit.mutated mutation) },
            .ok (total (fun loaded => (mutation.edit loaded.unit).2) session.units)) := by
  unfold apply
  cases checked : session.units.forM fun loaded => mutation.check loaded.unit with
  | error error =>
      refine Or.inl ⟨error, rfl, ?_⟩
      by_contra noneRefuses
      push Not at noneRefuses
      rw [forM_eq_ok_iff.2 noneRefuses] at checked
      cases checked
  | ok done =>
      have passed := forM_eq_ok_iff.1 checked
      refine Or.inr ⟨passed, ?_⟩
      simp only [LoadedUnit.editAll_apply passed]

/-- An edit that is refused is taken back, whatever it did before. -/
theorem editEach_error {σ : Type} {session after : Session}
    {edit : σ → SourceUnit → σ × SourceUnit × Except EditError Nat} {state : σ} {error : EditError}
    (refused : session.editEach edit state = (after, .error error)) : after = session := by
  unfold editEach at refused
  have frame := LoadedUnit.editAll_frame edit state session.units
  cases edited : LoadedUnit.editAll edit state session.units with
  | mk units outcome =>
      rw [edited] at frame
      cases outcome with
      | ok count =>
          simp only [edited] at refused
          cases refused
      | error cause =>
          simp only [edited, LoadedUnit.putBack_frame frame] at refused
          cases refused
          rfl

theorem run_error {session after : Session} {edit : SessionEdit} {error : EditError}
    (refused : edit.run session = (after, .error error)) : after = session := by
  cases edit with
  | apply mutation =>
      obtain ⟨_, applied, _⟩ | ⟨_, applied⟩ := apply_cases session mutation
      · rw [SessionEdit.run, applied] at refused
        cases refused
        rfl
      · rw [SessionEdit.run, applied] at refused
        cases refused
  | modify kind query transform => exact editEach_error refused
  | modifyKind word query transform =>
      rw [SessionEdit.run] at refused
      cases parsed : ElementKind.parse word with
      | ok kind =>
          rw [parsed] at refused
          exact editEach_error refused
      | error unknown =>
          rw [parsed] at refused
          cases refused
          rfl
  | modifyMember query change => exact editEach_error refused

/-- **Atomicity.** A refused edit leaves the session as it was, also an edit that remembers
what it has seen and leaves units half-done. A mutation that every unit passes the check of
is applied, and then each unit is the result of applying it to that unit alone. -/
theorem edits_atomic (session : Session) :
    (∀ (edit : SessionEdit) (after : Session) (error : EditError),
      edit.run session = (after, .error error) → after = session) ∧
    (∀ (σ : Type) (edit : σ → SourceUnit → σ × SourceUnit × Except EditError Nat) (state : σ)
      (after : Session) (error : EditError),
      session.editEach edit state = (after, .error error) → after = session) ∧
    (∀ mutation : Mutation, (∀ loaded ∈ session.units, mutation.check loaded.unit = .ok ()) →
      ∃ after changes, session.apply mutation = (after, .ok changes)) ∧
    ∀ (mutation : Mutation) (after : Session) (changes : Nat),
      session.apply mutation = (after, .ok changes) →
      after = { session with units := after.units } ∧
      List.Forall₂ (fun loaded edited => SameFrame loaded edited ∧
        ∃ count, mutation.apply loaded.unit = .ok (edited.unit, count))
        session.units after.units := by
  refine ⟨fun _ _ _ => run_error, fun _ _ _ _ _ => editEach_error, ?_, ?_⟩
  · intro mutation passed
    obtain ⟨_, _, loaded, mem, refused⟩ | ⟨_, applied⟩ := apply_cases session mutation
    · exact absurd (passed loaded mem) refused
    · exact ⟨_, _, applied⟩
  · intro mutation after changes succeeded
    obtain ⟨_, applied, _⟩ | ⟨passed, applied⟩ := apply_cases session mutation
    · rw [applied] at succeeded
      cases succeeded
    · rw [applied] at succeeded
      cases succeeded
      refine ⟨rfl, List.forall₂_map_right_iff.2 (List.forall₂_same.2 fun loaded mem => ?_)⟩
      exact ⟨rfl, _, Mutation.apply_eq_ok_iff.2 ⟨passed loaded mem, rfl⟩⟩

namespace Example

/-- A session of two files, of which the second imports a class as `F`. -/
def plainThenImporting : Session where
  units := [⟨.file "a.php", none, SourceUnit.empty.updateNamespace "" id, ""⟩,
    ⟨.file "b.php", none,
      SourceUnit.empty.updateNamespace "" (·.insertImport (.ofName "X\\F")), ""⟩]
  manifest := .empty
  validator := ⟨none, "/tmp/scribe", []⟩
  printer := {}

def emptySecondFails (seen : Nat) (_ : SourceUnit) : Nat × SourceUnit × Except EditError Nat :=
  (seen + 1, .empty, if seen = 0 then .ok 1 else .error (.unknownKind "second"))

/-- The second unit refuses an import of another `F` and lets the same one pass. -/
theorem edits_atomic_second_refuses :
    (∃ error, plainThenImporting.apply (.import_ "Y\\F") = (plainThenImporting, .error error)) ∧
    (∃ error, plainThenImporting.editEach emptySecondFails 0 = (plainThenImporting, .error error)) ∧
    ∃ after changes, plainThenImporting.apply (.import_ "X\\F") = (after, .ok changes) ∧
      List.Forall₂ (fun loaded edited => SameFrame loaded edited ∧
        ∃ count, (Mutation.import_ "X\\F").apply loaded.unit = .ok (edited.unit, count))
        plainThenImporting.units after.units := by
  obtain ⟨runs, edits, passes, applies⟩ := edits_atomic plainThenImporting
  refine ⟨⟨.ambiguousImport "Y\\F" "X\\F" "F" "", ?_⟩, ⟨.unknownKind "second", ?_⟩, ?_⟩
  · have refused : (plainThenImporting.apply (.import_ "Y\\F")).2 =
        .error (.ambiguousImport "Y\\F" "X\\F" "F" "") := by decide +kernel
    exact Prod.ext (runs (.apply (.import_ "Y\\F")) _ _ (Prod.ext rfl refused)) refused
  · have refused : (plainThenImporting.editEach emptySecondFails 0).2 =
        .error (.unknownKind "second") := by decide +kernel
    exact Prod.ext (edits Nat emptySecondFails 0 _ _ (Prod.ext rfl refused)) refused
  · obtain ⟨after, changes, applied⟩ := passes (.import_ "X\\F") (by decide +kernel)
    exact ⟨after, changes, applied, (applies _ _ _ applied).2⟩

end Example

end Session

end Emend
