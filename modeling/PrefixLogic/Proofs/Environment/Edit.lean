import Mathlib.Data.List.Induction
import PrefixLogic.Environment

namespace PrefixLogic

/-- One change to an environment. -/
inductive Edit where
  | define (name : String) (value : Bool)
  | remove (name : String)
  | clear

namespace Edit

def apply (env : Environment) : Edit → Environment
  | .define name value => (env.define name value).2
  | .remove name => (env.remove name).2
  | .clear => env.clear

/-- Whether an edit decides what a name is bound to. -/
def touches (name : String) : Edit → Bool
  | .define other _ => name == other
  | .remove other => name == other
  | .clear => true

/-- What the names that an edit touches are bound to behind it. -/
def value? : Edit → Option Bool
  | .define _ value => some value
  | .remove _ => none
  | .clear => none

/-- The last edit that touches a name defines it with a value. -/
def LastDefines (name : String) (value : Bool) (edits : List Edit) : Prop :=
  ∃ before after, edits = before ++ .define name value :: after ∧
    ∀ edit ∈ after, edit.touches name = false

theorem touches_define (name : String) (value : Bool) :
    (define name value).touches name = true :=
  beq_self_eq_true name

theorem get?_apply (env : Environment) (edit : Edit) (name : String) :
    (edit.apply env).get? name = if edit.touches name then edit.value? else env.get? name := by
  cases edit with
  | define other value => simp [apply, touches, value?, Environment.define, Environment.get?_insert]
  | remove other => simp [apply, touches, value?, Environment.remove, Environment.get?_erase]
  | clear => rfl

theorem eq_define_of_touches {edit : Edit} {name : String} {value : Bool}
    (htouches : edit.touches name = true) (hvalue : edit.value? = some value) :
    edit = .define name value := by
  cases edit with
  | define other old =>
    obtain rfl : name = other := eq_of_beq htouches
    obtain rfl : old = value := Option.some.inj hvalue
    rfl
  | _ => cases hvalue

theorem not_lastDefines_nil (name : String) (value : Bool) : ¬ LastDefines name value [] := by
  rintro ⟨before, after, hedits, -⟩
  simp at hedits

/-- One edit more is the last one, if it touches the name, and makes no difference else. -/
theorem lastDefines_concat_iff {name : String} {value : Bool} {edits : List Edit} {edit : Edit} :
    LastDefines name value (edits ++ [edit]) ↔
      edit = .define name value ∨ edit.touches name = false ∧ LastDefines name value edits := by
  constructor
  · rintro ⟨before, after, hedits, hafter⟩
    rcases List.eq_nil_or_concat after with rfl | ⟨after, last, rfl⟩
    · obtain ⟨-, hlast⟩ := List.append_inj' hedits rfl
      exact .inl (List.singleton_inj.mp hlast)
    · rw [List.concat_eq_append, ← List.cons_append, ← List.append_assoc] at hedits
      obtain ⟨hinit, hlast⟩ := List.append_inj' hedits rfl
      obtain rfl := List.singleton_inj.mp hlast
      exact .inr ⟨hafter edit (by simp), before, after, hinit,
        fun other hother => hafter other (by simp [hother])⟩
  · rintro (rfl | ⟨htouches, before, after, rfl, hafter⟩)
    · exact ⟨edits, [], rfl, fun _ hmem => by cases hmem⟩
    · refine ⟨before, after ++ [edit], by simp, ?_⟩
      exact List.forall_mem_append.mpr ⟨hafter, List.forall_mem_singleton.mpr htouches⟩

/-- What one edit after the other makes of an environment. -/
def applyAll (edits : List Edit) (env : Environment) : Environment :=
  edits.foldl apply env

@[simp] theorem applyAll_nil (env : Environment) : applyAll [] env = env :=
  rfl

@[simp] theorem applyAll_cons (edit : Edit) (edits : List Edit) (env : Environment) :
    applyAll (edit :: edits) env = applyAll edits (edit.apply env) :=
  rfl

@[simp] theorem applyAll_append (first second : List Edit) (env : Environment) :
    applyAll (first ++ second) env = applyAll second (applyAll first env) :=
  List.foldl_append

/-- A name is bound to what the last edit that touches it defines it with, if it does. -/
theorem get?_applyAll_eq_some_iff {name : String} {value : Bool} {edits : List Edit} :
    (applyAll edits .empty).get? name = some value ↔ LastDefines name value edits := by
  induction edits using List.reverseRecOn with
  | nil => exact iff_of_false (by simp [Environment.get?_empty]) (not_lastDefines_nil name value)
  | append_singleton edits edit ih =>
    rw [applyAll_append, applyAll_cons, applyAll_nil, get?_apply, lastDefines_concat_iff, ← ih]
    split
    · rename_i htouches
      constructor
      · intro hvalue
        exact .inl (eq_define_of_touches htouches hvalue)
      · rintro (rfl | ⟨hnot, -⟩)
        · rfl
        · rw [htouches] at hnot
          cases hnot
    · rename_i htouches
      constructor
      · intro hget
        exact .inr ⟨by simpa using htouches, hget⟩
      · rintro (rfl | ⟨-, hget⟩)
        · exact absurd (touches_define name value) htouches
        · exact hget

end Edit

end PrefixLogic
