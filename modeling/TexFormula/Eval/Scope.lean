/-!
# Scopes

A `Scope` binds names to values. A name is bound at most once; binding it again replaces its value,
and a new name comes after the old ones.

* `Scope.get?` is the view through which a scope is used;
* `Scope.get?_insert` : binding a name changes what that name gives and nothing else.
-/

namespace TexFormula

/-- Names with their values, in the order in which the names were first bound. -/
structure Scope (V : Type) where
  bindings : List (String × V) := []

namespace Scope

variable {V : Type}

def get? (scope : Scope V) (name : String) : Option V := scope.bindings.lookup name

def bindIn (name : String) (value : V) : List (String × V) → List (String × V)
  | [] => [(name, value)]
  | (key, old) :: rest =>
    if key = name then (key, value) :: rest else (key, old) :: bindIn name value rest

def insert (scope : Scope V) (name : String) (value : V) : Scope V := ⟨bindIn name value scope.bindings⟩

def ofList (entries : List (String × V)) : Scope V :=
  entries.foldl (fun scope entry => scope.insert entry.1 entry.2) {}

theorem lookup_cons (key k : String) (value : V) (entries : List (String × V)) :
    ((k, value) :: entries).lookup key = if key = k then some value else entries.lookup key := by
  rw [List.lookup_cons]
  by_cases h : key = k
  · simp [h]
  · simp [h, beq_false_of_ne h]

theorem lookup_bindIn (name key : String) (value : V) (entries : List (String × V)) :
    (bindIn name value entries).lookup key = if key = name then some value else entries.lookup key := by
  induction entries with
  | nil => simp [bindIn, lookup_cons]
  | cons entry rest ih =>
    obtain ⟨k, old⟩ := entry
    by_cases hk : k = name
    · by_cases hn : key = name <;> simp [bindIn, lookup_cons, hk, hn]
    · by_cases hn : key = k
      · simp [bindIn, hk, hn]
      · simp [bindIn, lookup_cons, hk, hn, ih]

/-- Binding a name changes what that name gives and nothing else. -/
theorem get?_insert (scope : Scope V) (name key : String) (value : V) :
    (scope.insert name value).get? key = if key = name then some value else scope.get? key :=
  lookup_bindIn name key value scope.bindings

end Scope

end TexFormula
