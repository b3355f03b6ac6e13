/-!
# Distinct

A list of names without repetitions: each name keeps its first place.
-/

namespace Nondet

/-- Keeps the first occurrence of each name that is not in `seen`. -/
def distinctFrom (seen : List String) : List String → List String
  | []      => []
  | a :: as => if a ∈ seen then distinctFrom seen as else a :: distinctFrom (a :: seen) as

/-- Keeps the first occurrence of each name. -/
def distinct (names : List String) : List String := distinctFrom [] names

theorem mem_distinctFrom {a : String} {seen names : List String} :
    a ∈ distinctFrom seen names ↔ a ∈ names ∧ a ∉ seen := by
  induction names generalizing seen with
  | nil => simp [distinctFrom]
  | cons b bs ih =>
    by_cases hb : b ∈ seen <;> by_cases hab : a = b <;> simp_all [distinctFrom]

/-- No name is lost and none is added. -/
theorem mem_distinct {a : String} {names : List String} : a ∈ distinct names ↔ a ∈ names := by
  simp [distinct, mem_distinctFrom]

theorem nodup_distinctFrom (seen names : List String) : (distinctFrom seen names).Nodup := by
  induction names generalizing seen with
  | nil => simp [distinctFrom]
  | cons b bs ih =>
    by_cases hb : b ∈ seen <;> simp [distinctFrom, hb, ih, mem_distinctFrom]

/-- No name is repeated. -/
theorem nodup_distinct (names : List String) : (distinct names).Nodup :=
  nodup_distinctFrom [] names

end Nondet
