import PrefixLogic.Proofs.Formula.Edits
import PrefixLogic.Proofs.Text.ByteOrder

namespace PrefixLogic

/-- What is done to an environment from outside: a single edit, or an evaluation. -/
inductive Operation where
  | change (edit : Edit)
  | eval (formula : Formula)

namespace Operation

/-- The environment that an operation leaves. -/
def apply (env : Environment) : Operation → Environment
  | .change edit => edit.apply env
  | .eval formula => (formula.eval env).2

/-- The edits that an operation comes to. -/
def edits (env : Environment) : Operation → List Edit
  | .change edit => [edit]
  | .eval formula => formula.edits env

/-- The environment that operations leave, one after the other. -/
def run (operations : List Operation) (env : Environment) : Environment :=
  operations.foldl apply env

/-- The edits that operations come to, one after the other. -/
def history : List Operation → Environment → List Edit
  | [], _ => []
  | operation :: rest, env => operation.edits env ++ history rest (operation.apply env)

theorem applyAll_edits (operation : Operation) (env : Environment) :
    Edit.applyAll (operation.edits env) env = operation.apply env := by
  cases operation with
  | change edit => rfl
  | eval formula => exact formula.applyAll_edits env

theorem applyAll_history (operations : List Operation) (env : Environment) :
    Edit.applyAll (history operations env) env = run operations env := by
  induction operations generalizing env with
  | nil => rfl
  | cons operation rest ih =>
    rw [history, Edit.applyAll_append, operation.applyAll_edits, ih]
    rfl

end Operation

namespace Environment

/-- Whether a binding may stand in front of another by the bytes of their names. -/
def byName (a b : Binding) : Bool :=
  decide (Utf8.bytes a.1 ≤ Utf8.bytes b.1)

theorem byName_iff {a b : Binding} : byName a b = true ↔ a.1 ≤ b.1 := by
  rw [byName, decide_eq_true_iff, Utf8.bytes_le_bytes_iff]

/-- No two bindings of an environment have one name. -/
theorem eq_of_mem_bindings {env : Environment} {a b : Binding} (ha : a ∈ env.bindings)
    (hb : b ∈ env.bindings) (hname : a.1 = b.1) : a = b := by
  have hvalue := (env.mem_bindings_iff a.1 a.2).mp ha
  rw [hname, (env.mem_bindings_iff b.1 b.2).mp hb] at hvalue
  exact Prod.ext hname (Option.some.inj hvalue.symm)

/-- Whatever holds each binding of an environment once holds what is listed. -/
theorem perm_bindings {env : Environment} {stored : List Binding} (hnodup : stored.Nodup)
    (hmem : ∀ name value, (name, value) ∈ stored ↔ env.get? name = some value) :
    stored.Perm env.bindings := by
  have hdistinct := Binding.nodup_of_sorted env.sorted
  refine (List.perm_ext_iff_of_nodup hnodup hdistinct).mpr fun binding => ?_
  rw [hmem, mem_bindings_iff]

theorem mergeSort_eq_bindings {env : Environment} {stored : List Binding}
    (hperm : stored.Perm env.bindings) : stored.mergeSort byName = env.bindings := by
  have hsorted : (stored.mergeSort byName).Pairwise fun a b => byName a b = true := by
    refine List.pairwise_mergeSort ?_ ?_ stored
    · simp only [byName_iff]
      exact fun _ _ _ => String.le_trans
    · simp only [Bool.or_eq_true, byName_iff]
      exact fun a b => String.le_total a.1 b.1
  have hlisted : env.bindings.Pairwise fun a b => byName a b = true :=
    env.sorted.imp fun hlt => byName_iff.mpr (String.not_lt.mp (String.lt_asymm hlt))
  have hsame := (List.mergeSort_perm stored byName).trans hperm
  refine List.Perm.eq_of_pairwise ?_ hsorted hlisted hsame
  intro a b ha hb hab hba
  exact eq_of_mem_bindings (hsame.subset ha) hb
    (String.le_antisymm (byName_iff.mp hab) (byName_iff.mp hba))

/-- An environment as a finite map with one listing. The listing is strictly increasing by
    the bytes of the names. It holds what the names are bound to, which is what the last
    edits of them have left. In whatever order bindings are kept, sorting them gives it. -/
structure Listed (env : Environment) (edits : List Edit) : Prop where
  increasing : env.bindings.Pairwise fun a b => Utf8.bytes a.1 < Utf8.bytes b.1
  mem_iff : ∀ name value, (name, value) ∈ env.bindings ↔ env.get? name = some value
  last_iff : ∀ name value, env.get? name = some value ↔ Edit.LastDefines name value edits
  size_eq : env.size = env.bindings.length
  isEmpty_iff : env.isEmpty = true ↔ env.bindings = []
  sort_eq : ∀ stored : List Binding, stored.Nodup →
    (∀ name value, (name, value) ∈ stored ↔ env.get? name = some value) →
    stored.mergeSort byName = env.bindings ∧ stored.length = env.size
  define : ∀ name value, (env.define name value).1 = env.get? name ∧
    ∀ other, (env.define name value).2.get? other =
      if other = name then some value else env.get? other
  remove : ∀ name, (env.remove name).1 = env.get? name ∧
    ∀ other, (env.remove name).2.get? other = if other = name then none else env.get? other

theorem listed_applyAll (edits : List Edit) : (Edit.applyAll edits .empty).Listed edits where
  increasing := (Edit.applyAll edits .empty).sorted.imp Utf8.bytes_lt_bytes_iff.mpr
  mem_iff := mem_bindings_iff _
  last_iff := fun _ _ => Edit.get?_applyAll_eq_some_iff
  size_eq := rfl
  isEmpty_iff := List.isEmpty_iff
  sort_eq := by
    intro stored hnodup hmem
    have hperm := perm_bindings hnodup hmem
    exact ⟨mergeSort_eq_bindings hperm, hperm.length_eq⟩
  define := fun name value => ⟨rfl, fun other => get?_insert _ name other value⟩
  remove := fun name => ⟨rfl, fun other => get?_erase _ name other⟩

end Environment

namespace Operation

/-- Whatever is done to the empty environment, with evaluations that may fail in the middle
    of their edits, it is a finite map with one listing of what the last edits of its names
    have left. Environments that answer alike for every name are one environment, with one
    listing, whatever was done to come to them. -/
theorem listed_run (operations operations' : List Operation) :
    (run operations .empty).Listed (history operations .empty) ∧
    ((∀ name, (run operations .empty).get? name = (run operations' .empty).get? name) ↔
      run operations .empty = run operations' .empty) ∧
    (run operations .empty = run operations' .empty ↔
      (run operations .empty).bindings = (run operations' .empty).bindings) := by
  refine ⟨?_, ⟨Environment.eq_of_get?_eq, ?_⟩, ⟨?_, ?_⟩⟩
  · rw [← applyAll_history]
    exact Environment.listed_applyAll _
  · intro hsame name
    rw [hsame]
  · exact congrArg Environment.bindings
  · intro hbindings
    exact Environment.eq_of_get?_eq fun name => congrArg (Binding.find? name) hbindings

/-- An evaluation that sets a name, binds another for a body and fails in that body, behind
    a definition of a name above ASCII. -/
theorem listed_run_failing :
    ∃ operations, operations =
      [.change (.define "é" true),
        .eval (.binary .and (.set "z" (.literal false)) (.letIn "x" (.literal true) (.ref "y")))] ∧
      (run operations .empty).bindings = [("z", false), ("é", true)] ∧
      Edit.LastDefines "z" false (history operations .empty) ∧
      ¬ Edit.LastDefines "x" true (history operations .empty) := by
  obtain ⟨hlisted, -⟩ := listed_run [.change (.define "é" true),
    .eval (.binary .and (.set "z" (.literal false)) (.letIn "x" (.literal true) (.ref "y")))] []
  refine ⟨_, rfl, by decide +kernel, (hlisted.last_iff "z" false).mp (by decide +kernel), ?_⟩
  rw [← hlisted.last_iff]
  decide +kernel

end Operation

end PrefixLogic
