/-! Values under names, listed in the order of the names. A name occurs once;
inserting it again replaces its value. -/
namespace Lockstep

structure Directory (α : Type) where
  entries : List (String × α) := []
  deriving Repr, Inhabited

namespace Directory
variable {α : Type}

def insertSorted (name : String) (value : α) : List (String × α) → List (String × α)
  | [] => [(name, value)]
  | (key, old) :: rest =>
      if name < key then (name, value) :: (key, old) :: rest
      else if name = key then (name, value) :: rest
      else (key, old) :: insertSorted name value rest

def insert (d : Directory α) (name : String) (value : α) : Directory α :=
  ⟨insertSorted name value d.entries⟩

def find? (d : Directory α) (name : String) : Option α := d.entries.lookup name

def contains (d : Directory α) (name : String) : Bool := (d.find? name).isSome

def names (d : Directory α) : List String := d.entries.map (·.1)

def values (d : Directory α) : List α := d.entries.map (·.2)

theorem lookup_cons (other key : String) (value : α) (rows : List (String × α)) :
    ((key, value) :: rows).lookup other =
      if other = key then some value else rows.lookup other := by
  rw [List.lookup_cons]
  by_cases h : other = key
  · simp [h]
  · simp [h, beq_false_of_ne h]

theorem lookup_insertSorted (name other : String) (value : α) (rows : List (String × α)) :
    (insertSorted name value rows).lookup other =
      if other = name then some value else rows.lookup other := by
  induction rows with
  | nil => simp only [insertSorted, lookup_cons]
  | cons row rest ih =>
      obtain ⟨key, old⟩ := row
      simp only [insertSorted]
      split
      · simp only [lookup_cons]
      · split
        · rename_i same
          subst same
          simp only [lookup_cons]
          split <;> rfl
        · rename_i same
          simp only [lookup_cons, ih]
          split
          · rename_i k
            rw [if_neg (fun h => same (h.symm.trans k))]
          · rfl

theorem find?_insert (d : Directory α) (name other : String) (value : α) :
    (d.insert name value).find? other = if other = name then some value else d.find? other :=
  lookup_insertSorted ..

end Directory

end Lockstep
