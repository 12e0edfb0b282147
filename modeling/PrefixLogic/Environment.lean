namespace PrefixLogic

/-- A truth value bound to a name. -/
abbrev Binding := String × Bool

namespace Binding

/-- Whether bindings stand in strictly increasing order of their names, code
    point by code point. -/
def Sorted (bindings : List Binding) : Prop :=
  bindings.Pairwise fun a b => a.1 < b.1

/-- The value bound to a name. -/
def find? (name : String) : List Binding → Option Bool
  | [] => none
  | (other, value) :: rest => if name = other then some value else find? name rest

/-- The bindings with a name bound to a value, at the place that the order gives it. -/
def insert (name : String) (value : Bool) : List Binding → List Binding
  | [] => [(name, value)]
  | (other, old) :: rest =>
    if name < other then (name, value) :: (other, old) :: rest
    else if name = other then (name, value) :: rest
    else (other, old) :: insert name value rest

/-- The bindings of all other names. -/
def erase (name : String) (bindings : List Binding) : List Binding :=
  bindings.filter fun binding => binding.1 != name

theorem eq_or_mem_of_mem_insert {name : String} {value : Bool} {bindings : List Binding}
    {binding : Binding} (hmem : binding ∈ insert name value bindings) :
    binding = (name, value) ∨ binding ∈ bindings := by
  induction bindings with
  | nil => simpa [insert] using hmem
  | cons first rest ih =>
    obtain ⟨other, old⟩ := first
    rw [insert] at hmem
    split at hmem
    · simpa using hmem
    · split at hmem
      · rcases List.mem_cons.mp hmem with h | h
        · exact .inl h
        · exact .inr (List.mem_cons_of_mem _ h)
      · rcases List.mem_cons.mp hmem with h | h
        · exact .inr (h ▸ List.mem_cons_self)
        · rcases ih h with h' | h'
          · exact .inl h'
          · exact .inr (List.mem_cons_of_mem _ h')

theorem lt_of_not_lt_of_ne {a b : String} (hlt : ¬ a < b) (hne : a ≠ b) : b < a := by
  apply String.not_le.mp
  intro hle
  exact hne (String.le_antisymm hle (String.not_lt.mp hlt))

theorem sorted_insert (name : String) (value : Bool) {bindings : List Binding}
    (hsorted : Sorted bindings) : Sorted (insert name value bindings) := by
  induction bindings with
  | nil => exact List.pairwise_singleton _ _
  | cons first rest ih =>
    obtain ⟨other, old⟩ := first
    obtain ⟨hfirst, hrest⟩ := List.pairwise_cons.mp hsorted
    rw [insert]
    split
    · rename_i hlt
      refine List.pairwise_cons.mpr ⟨fun binding hmem => ?_, hsorted⟩
      rcases List.mem_cons.mp hmem with rfl | h
      · exact hlt
      · exact String.lt_trans hlt (hfirst binding h)
    · split
      · rename_i heq
        exact List.pairwise_cons.mpr ⟨fun binding hmem => heq ▸ hfirst binding hmem, hrest⟩
      · rename_i hlt hne
        refine List.pairwise_cons.mpr ⟨fun binding hmem => ?_, ih hrest⟩
        rcases eq_or_mem_of_mem_insert hmem with rfl | h
        · exact lt_of_not_lt_of_ne hlt hne
        · exact hfirst binding h

theorem sorted_erase (name : String) {bindings : List Binding} (hsorted : Sorted bindings) :
    Sorted (erase name bindings) :=
  List.Pairwise.filter _ hsorted

theorem find?_insert (name other : String) (value : Bool) (bindings : List Binding) :
    find? other (insert name value bindings) =
      if other = name then some value else find? other bindings := by
  induction bindings with
  | nil => rfl
  | cons first rest ih =>
    obtain ⟨key, old⟩ := first
    rw [insert]
    split
    · rfl
    · split
      · rename_i heq
        subst heq
        by_cases hname : other = name <;> simp [find?, hname]
      · rename_i hne
        rw [find?, ih, find?]
        by_cases hkey : other = key
        · subst hkey
          simp [Ne.symm hne]
        · simp [hkey]

theorem find?_erase (name other : String) (bindings : List Binding) :
    find? other (erase name bindings) = if other = name then none else find? other bindings := by
  induction bindings with
  | nil => simp [erase, find?]
  | cons first rest ih =>
    obtain ⟨key, value⟩ := first
    have hcons : erase name ((key, value) :: rest) =
        if key = name then erase name rest else (key, value) :: erase name rest := by
      by_cases hkey : key = name <;> simp [erase, hkey]
    rw [hcons]
    split
    · rename_i hkey
      subst hkey
      rw [ih, find?]
      split <;> simp_all
    · rename_i hkey
      rw [find?, ih, find?]
      by_cases hother : other = key
      · subst hother
        simp [hkey]
      · simp [hother]

/-- A name below all others is not bound. -/
theorem find?_eq_none_of_forall_lt {name : String} {bindings : List Binding}
    (hlt : ∀ binding ∈ bindings, name < binding.1) : find? name bindings = none := by
  induction bindings with
  | nil => rfl
  | cons first rest ih =>
    have hne : name ≠ first.1 := by
      intro heq
      have := hlt first List.mem_cons_self
      rw [heq] at this
      exact String.lt_irrefl _ this
    rw [find?, if_neg hne, ih fun binding hmem => hlt binding (List.mem_cons_of_mem _ hmem)]

/-- What is listed is what is bound. -/
theorem mem_iff_find? {bindings : List Binding} (hsorted : Sorted bindings) (name : String)
    (value : Bool) : (name, value) ∈ bindings ↔ find? name bindings = some value := by
  induction bindings with
  | nil => simp [find?]
  | cons first rest ih =>
    obtain ⟨key, old⟩ := first
    obtain ⟨hfirst, hrest⟩ := List.pairwise_cons.mp hsorted
    rw [List.mem_cons, ih hrest, find?]
    split
    · rename_i heq
      subst heq
      simp [find?_eq_none_of_forall_lt hfirst, eq_comm]
    · rename_i hne
      simp [hne]

theorem nodup_of_sorted {bindings : List Binding} (hsorted : Sorted bindings) :
    bindings.Nodup := by
  refine List.Pairwise.imp ?_ hsorted
  rintro a b hlt rfl
  exact String.lt_irrefl _ hlt

/-- Sorted bindings are determined by what they bind. -/
theorem eq_of_find?_eq {a b : List Binding} (ha : Sorted a) (hb : Sorted b)
    (hfind : ∀ name, find? name a = find? name b) : a = b := by
  have hperm : a.Perm b := by
    refine (List.perm_ext_iff_of_nodup (nodup_of_sorted ha) (nodup_of_sorted hb)).mpr
      fun binding => ?_
    rw [mem_iff_find? ha, mem_iff_find? hb, hfind]
  exact hperm.eq_of_pairwise
    (fun x y _ _ hxy hyx => absurd hyx (String.lt_asymm hxy)) ha hb

end Binding

/-- The names that are defined, each with its value. The order is part of the
    type, so two environments that answer every question alike are equal. -/
structure Environment where
  bindings : List Binding
  sorted : Binding.Sorted bindings
deriving DecidableEq

namespace Environment

/-- The environment that defines nothing. -/
def empty : Environment :=
  ⟨[], List.Pairwise.nil⟩

def get? (env : Environment) (name : String) : Option Bool :=
  Binding.find? name env.bindings

def isDefined (env : Environment) (name : String) : Bool :=
  (env.get? name).isSome

def size (env : Environment) : Nat :=
  env.bindings.length

def isEmpty (env : Environment) : Bool :=
  env.bindings.isEmpty

/-- Binds a name, in place of what it was bound to before. -/
def insert (env : Environment) (name : String) (value : Bool) : Environment :=
  ⟨Binding.insert name value env.bindings, Binding.sorted_insert name value env.sorted⟩

/-- Unbinds a name. -/
def erase (env : Environment) (name : String) : Environment :=
  ⟨Binding.erase name env.bindings, Binding.sorted_erase name env.sorted⟩

/-- Unbinds every name. -/
def clear (_ : Environment) : Environment :=
  empty

/-- Binds a name and tells what it was bound to. -/
def define (env : Environment) (name : String) (value : Bool) : Option Bool × Environment :=
  (env.get? name, env.insert name value)

/-- Unbinds a name and tells what it was bound to. -/
def remove (env : Environment) (name : String) : Option Bool × Environment :=
  (env.get? name, env.erase name)

theorem get?_empty (name : String) : empty.get? name = none :=
  rfl

theorem get?_insert (env : Environment) (name other : String) (value : Bool) :
    (env.insert name value).get? other = if other = name then some value else env.get? other :=
  Binding.find?_insert name other value env.bindings

theorem get?_erase (env : Environment) (name other : String) :
    (env.erase name).get? other = if other = name then none else env.get? other :=
  Binding.find?_erase name other env.bindings

theorem isDefined_insert (env : Environment) (name other : String) (value : Bool) :
    (env.insert name value).isDefined other = (other == name || env.isDefined other) := by
  rw [isDefined, get?_insert, isDefined]
  by_cases hname : other = name <;> simp [hname]

theorem isDefined_erase (env : Environment) (name other : String) :
    (env.erase name).isDefined other = (other != name && env.isDefined other) := by
  rw [isDefined, get?_erase, isDefined]
  by_cases hname : other = name <;> simp [hname]

theorem mem_bindings_iff (env : Environment) (name : String) (value : Bool) :
    (name, value) ∈ env.bindings ↔ env.get? name = some value :=
  Binding.mem_iff_find? env.sorted name value

/-- Environments that bind the same names to the same values are equal. -/
theorem eq_of_get?_eq {a b : Environment} (hget : ∀ name, a.get? name = b.get? name) : a = b := by
  have hbindings := Binding.eq_of_find?_eq a.sorted b.sorted hget
  cases a
  cases b
  cases hbindings
  rfl

end Environment

end PrefixLogic
