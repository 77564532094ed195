import GrammarPage.Text.Basic

/-!
Links into the prose that defines a production, kept by production name in the order of insertion.
Setting a name again keeps its place; removing it and setting it again moves it to the end.
-/

namespace GrammarPage

structure Link where
  target : Option Text
  title : Option Text
  deriving DecidableEq, Repr

structure LinkTable where
  entries : List (Text × Link)
  distinct : (entries.map Prod.fst).Nodup
  deriving DecidableEq

namespace LinkTable

def empty : LinkTable := ⟨[], List.nodup_nil⟩

def find? (name : Text) : List (Text × Link) → Option Link
  | [] => none
  | (key, link) :: rest => if key = name then some link else find? name rest

def get? (table : LinkTable) (name : Text) : Option Link := find? name table.entries

def put (name : Text) (link : Link) : List (Text × Link) → List (Text × Link)
  | [] => [(name, link)]
  | (key, old) :: rest =>
      if key = name then (key, link) :: rest else (key, old) :: put name link rest

theorem mem_keys_put {name other : Text} {link : Link} {entries : List (Text × Link)} :
    other ∈ (put name link entries).map Prod.fst ↔
      other = name ∨ other ∈ entries.map Prod.fst := by
  induction entries with
  | nil => simp [put]
  | cons entry rest ih =>
      obtain ⟨key, old⟩ := entry
      by_cases here : key = name
      · subst here
        simp [put]
      · simp only [put, here, ↓reduceIte, List.map_cons, List.mem_cons, ih]
        exact or_left_comm

theorem nodup_put {name : Text} {link : Link} {entries : List (Text × Link)}
    (distinct : (entries.map Prod.fst).Nodup) : ((put name link entries).map Prod.fst).Nodup := by
  induction entries with
  | nil => simp [put]
  | cons entry rest ih =>
      obtain ⟨key, old⟩ := entry
      simp only [List.map_cons, List.nodup_cons] at distinct
      by_cases here : key = name
      · subst here
        simpa only [put, ↓reduceIte, List.map_cons, List.nodup_cons] using distinct
      · simp only [put, here, ↓reduceIte, List.map_cons, List.nodup_cons]
        refine ⟨fun present => ?_, ih distinct.2⟩
        rcases mem_keys_put.mp present with same | other
        · exact here same
        · exact distinct.1 other

def insert (table : LinkTable) (name : Text) (link : Link) : LinkTable :=
  ⟨put name link table.entries, nodup_put table.distinct⟩

theorem nodup_filter {name : Text} {entries : List (Text × Link)}
    (distinct : (entries.map Prod.fst).Nodup) :
    ((entries.filter (·.1 ≠ name)).map Prod.fst).Nodup :=
  distinct.sublist (List.filter_sublist.map Prod.fst)

def erase (table : LinkTable) (name : Text) : LinkTable :=
  ⟨table.entries.filter (·.1 ≠ name), nodup_filter table.distinct⟩

theorem find_put (name other : Text) (link : Link) (entries : List (Text × Link)) :
    find? other (put name link entries) = if name = other then some link else find? other entries := by
  induction entries with
  | nil => simp [put, find?]
  | cons entry rest ih =>
      obtain ⟨key, old⟩ := entry
      by_cases here : key = name
      · subst here
        by_cases same : key = other <;> simp [put, find?, same]
      · by_cases same : key = other
        · subst same
          simp [put, find?, here, Ne.symm here]
        · simp [put, find?, here, same, ih]

theorem get_insert (table : LinkTable) (name other : Text) (link : Link) :
    (table.insert name link).get? other = if name = other then some link else table.get? other :=
  find_put name other link table.entries

theorem find_filter (name other : Text) (entries : List (Text × Link)) :
    find? other (entries.filter (·.1 ≠ name)) =
      if name = other then none else find? other entries := by
  induction entries with
  | nil => simp [find?]
  | cons entry rest ih =>
      obtain ⟨key, old⟩ := entry
      by_cases here : key = name
      · subst here
        by_cases same : key = other <;> simp_all [find?]
      · by_cases same : key = other
        · subst same
          simp [find?, here, Ne.symm here]
        · simp_all [find?]

theorem get_erase (table : LinkTable) (name other : Text) :
    (table.erase name).get? other = if name = other then none else table.get? other :=
  find_filter name other table.entries

/-- The same links under the same names, in whatever order. -/
def agrees (left right : LinkTable) : Bool :=
  left.entries.length = right.entries.length &&
    left.entries.all fun entry => right.get? entry.1 = some entry.2

end LinkTable

end GrammarPage
