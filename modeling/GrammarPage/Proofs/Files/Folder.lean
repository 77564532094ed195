import GrammarPage.Files.Folder

/-!
Writing into a folder. A path at which a file can be written leads to that file afterwards, and every other
file is as it was.
-/

namespace GrammarPage.Folder

variable {folder : Folder} {place target : List Text} {octets : List UInt8}

/-- The folder with a file at a place. -/
def save (folder : Folder) (place : List Text) (octets : List UInt8) : Folder :=
  { folder with files := put place octets folder.files }

theorem find_put (files : List (List Text × List UInt8)) :
    ((put target octets files).find? (·.1 = place)).map (·.2) =
      if place = target then some octets else (files.find? (·.1 = place)).map (·.2) := by
  induction files with
  | nil => by_cases same : target = place <;> simp [put, same, eq_comm]
  | cons file rest ih =>
      rw [put]
      by_cases here : file.1 = target
      · rw [if_pos here]
        by_cases same : file.1 = place
        · simp [same, ← here]
        · have apart : place ≠ target := fun equal => same (here.trans equal.symm)
          simp [same, apart]
      · rw [if_neg here]
        by_cases same : file.1 = place
        · have apart : place ≠ target := fun equal => here (same.trans equal)
          simp [same, apart]
        · simpa [List.find?_cons, same] using ih

theorem file_save (other : List Text) :
    (folder.save target octets).file? other = if other = target then some octets else folder.file? other :=
  find_put folder.files

theorem mem_put_places (target : List Text) (octets : List UInt8)
    {files : List (List Text × List UInt8)} {file : List Text × List UInt8} (member : file ∈ files) :
    ∃ kept ∈ put target octets files, kept.1 = file.1 := by
  induction files with
  | nil => cases member
  | cons first rest ih =>
      rw [put]
      by_cases here : first.1 = target
      · rw [if_pos here]
        rcases List.mem_cons.mp member with rfl | later
        · exact ⟨_, List.mem_cons_self, rfl⟩
        · exact ⟨file, List.mem_cons_of_mem _ later, rfl⟩
      · rw [if_neg here]
        rcases List.mem_cons.mp member with rfl | later
        · exact ⟨_, List.mem_cons_self, rfl⟩
        · obtain ⟨kept, inside, same⟩ := ih later
          exact ⟨kept, List.mem_cons_of_mem _ inside, same⟩

/-- Folders stay where they are. -/
theorem holds_save (held : folder.holds place) : (folder.save target octets).holds place := by
  simp only [holds, Bool.or_eq_true, List.any_eq_true] at held ⊢
  rcases held with known | ⟨file, member, under⟩
  · exact .inl known
  · obtain ⟨kept, inside, same⟩ := mem_put_places target octets member
    exact .inr ⟨kept, inside, same ▸ under⟩

variable {steps : List Text}

/-- Where a file can be written there is one, or no folder. -/
theorem writable_free (leads : (folder.follow place steps).1 = some target)
    (writable : (folder.follow place steps).2.writeFault? = none) :
    (folder.file? target).isSome ∨ folder.holds target = false := by
  fun_induction follow folder place steps with
  | case1 => cases writable
  | case2 place step rest idle ih => exact ih leads writable
  | case3 | case5 => cases leads
  | case4 place rest inside _ ih => exact ih leads writable
  | case6 place step rest _ _ _ ahead octets there =>
      have same : ahead = target := Option.some.inj leads
      exact .inl (by simp [← same, there])
  | case7 place step rest _ _ _ ahead absent held ih => exact ih leads writable
  | case8 place step rest _ _ _ ahead absent free =>
      have same : ahead = target := Option.some.inj leads
      exact .inr (by simpa [← same] using free)

section Steps
variable {step : Text} (going : isIdle step = false) (down : step ≠ "..") (short : Look.isLongName step = false)
include going down short

theorem follow_file (there : folder.file? (place ++ [step]) = some octets) :
    folder.follow place [step] = (some (place ++ [step]), .file octets) := by
  simp [follow, going, down, short, there]

theorem follow_folder (absent : folder.file? (place ++ [step]) = none) (held : folder.holds (place ++ [step]))
    (rest : List Text) : folder.follow place (step :: rest) = folder.follow (place ++ [step]) rest := by
  simp [follow, going, down, short, absent, held]

end Steps

/-- The way to a file that can be written passes through folders alone, so writing leaves it open. -/
theorem follow_save (leads : (folder.follow place steps).1 = some target)
    (writable : (folder.follow place steps).2.writeFault? = none) (octets : List UInt8) :
    (folder.save target octets).follow place steps = (some target, .file octets) := by
  have free := writable_free leads writable
  have written : (folder.save target octets).file? target = some octets := by rw [file_save, if_pos rfl]
  fun_induction follow folder place steps with
  | case1 => cases writable
  | case2 place step rest idle ih => rw [follow, if_pos idle, ih leads writable]
  | case3 | case5 => cases leads
  | case4 place rest inside going ih => rw [follow, if_neg going, if_pos rfl, if_neg inside, ih leads writable]
  | case6 place step rest going down short ahead old there =>
      obtain rfl : rest = [] := Decidable.byContradiction fun more => by
        rw [if_neg more] at writable
        cases writable
      have same : place ++ [step] = target := Option.some.inj leads
      rw [← same] at written ⊢
      exact follow_file (by simpa using going) down (by simpa using short) written
  | case7 place step rest going down short ahead absent held ih =>
      have apart : ahead ≠ target := by
        intro same
        simp [← same, absent, held] at free
      have still : (folder.save target octets).file? ahead = none := by rw [file_save, if_neg apart, absent]
      rw [follow_folder (by simpa using going) down (by simpa using short) still (holds_save held)]
      exact ih leads writable
  | case8 place step rest going down short ahead absent _ =>
      obtain rfl : rest = [] := Decidable.byContradiction fun more => by
        rw [if_neg more] at writable
        cases writable
      have same : place ++ [step] = target := Option.some.inj leads
      rw [← same] at written ⊢
      exact follow_file (by simpa using going) down (by simpa using short) written

variable {path : Text}

theorem find_inside (leads : (folder.find path).1 = some target) :
    folder.find path = folder.follow [] (Path.steps path) ∧
      ∀ other : Folder, other.find path = other.follow [] (Path.steps path) := by
  have same (other : Folder) (settled : Look.ofPath? path = none) (inside : path.toList.head? ≠ some (.char '/')) :
      other.find path = other.follow [] (Path.steps path) := by
    rw [find, settled]
    exact if_neg inside
  have settled : Look.ofPath? path = none := by
    cases given : Look.ofPath? path with
    | none => rfl
    | some look =>
        rw [find, given] at leads
        cases leads
  have inside : path.toList.head? ≠ some (.char '/') := by
    intro rooted
    rw [find, settled] at leads
    simp only [if_pos rooted, reduceCtorEq] at leads
  exact ⟨same folder settled inside, fun other => same other settled inside⟩

theorem write_outside (leads : (folder.find path).1 = none) (octets : List UInt8) :
    folder.write path octets = folder := by
  rw [write, leads]

theorem write_inside (leads : (folder.find path).1 = some target) (octets : List UInt8) :
    folder.write path octets = folder.save target octets := by
  rw [write, leads]
  rfl

/-- What is written is there to be looked at. -/
theorem look_write (leads : (folder.find path).1 = some target) (writable : (folder.look path).writeFault? = none)
    (octets : List UInt8) : (folder.write path octets).look path = .file octets := by
  obtain ⟨way, ways⟩ := find_inside leads
  rw [look, way] at writable
  rw [way] at leads
  rw [write_inside (way ▸ leads), look, ways, follow_save leads writable]

/-- A write changes no file but the one its path leads to. -/
theorem file_write {other : List Text} (apart : (folder.find path).1 ≠ some other) (octets : List UInt8) :
    (folder.write path octets).file? other = folder.file? other := by
  cases leads : (folder.find path).1 with
  | none => rw [write_outside leads]
  | some place =>
      rw [write_inside leads, file_save, if_neg]
      rintro rfl
      exact apart leads

end GrammarPage.Folder
