/-!
JSON values. A number that is written as an integer is kept as that integer;
any other number is kept as it is written, because nothing here computes with
it.
-/

namespace MicroC

inductive Json where
  | null
  | bool (value : Bool)
  | integer (value : Int)
  /-- A number with a fraction or an exponent, or negative zero. -/
  | decimal (spelling : String)
  | string (value : String)
  | array (items : List Json)
  /-- Members stand in the order in which they are written. -/
  | object (members : List (String × Json))

namespace Json

def int64? : Json → Option Int64
  | integer n =>
      if Int64.minValue.toInt ≤ n ∧ n ≤ Int64.maxValue.toInt then some (.ofInt n) else none
  | _ => none

def uint32? : Json → Option UInt32
  | integer n => if 0 ≤ n ∧ n < UInt32.size then some (.ofNat n.toNat) else none
  | _ => none

def string? : Json → Option String
  | string s => some s
  | _ => none

def array? : Json → Option (List Json)
  | array items => some items
  | _ => none

/-- A value in which a name chooses the form: the name alone, or the name as
the one key of an object with the rest as its value. -/
def variant? : Json → Option (String × Option Json)
  | string name => some (name, none)
  | object [(name, value)] => some (name, some value)
  | _ => none

/-- The first member with a name. -/
def member? (members : List (String × Json)) (name : String) : Option Json := members.lookup name

/-- The values of the named fields, in the order of `names`. An object has
each of them at most once, in any order and among others; an array has exactly
these, in order. -/
def fields? (names : List String) : Json → Option (List (Option Json))
  | object members =>
      if names.all fun name => (members.filter (·.1 == name)).length ≤ 1 then
        some (names.map (member? members))
      else none
  | array items => if items.length = names.length then some (items.map some) else none
  | _ => none

theorem sizeOf_of_variant? {j value : Json} {name : String}
    (h : j.variant? = some (name, some value)) : sizeOf value < sizeOf j := by
  unfold variant? at h
  split at h <;> simp at h
  obtain ⟨rfl, rfl⟩ := h
  simp
  omega

theorem sizeOf_of_member? {members : List (String × Json)} {name : String} {value : Json}
    (h : member? members name = some value) : sizeOf value < sizeOf members := by
  induction members with
  | nil => simp [member?] at h
  | cons entry rest ih =>
      obtain ⟨key, found⟩ := entry
      rw [member?, List.lookup_cons] at h
      split at h
      · simp only [Option.some.injEq] at h
        subst h
        simp
        omega
      · have := ih h
        simp
        omega

theorem sizeOf_of_fields? {j : Json} {names : List String} {values : List (Option Json)}
    {value : Json} (h : j.fields? names = some values) (hv : some value ∈ values) :
    sizeOf value < sizeOf j := by
  unfold fields? at h
  split at h
  · split at h
    · simp only [Option.some.injEq] at h
      subst h
      obtain ⟨name, _, hm⟩ := List.mem_map.mp hv
      have := sizeOf_of_member? hm
      simp
      omega
    · simp at h
  · split at h
    · simp only [Option.some.injEq] at h
      subst h
      simp only [List.mem_map, Option.some.injEq, exists_eq_right] at hv
      have := List.sizeOf_lt_of_mem hv
      simp
      omega
    · simp at h
  · simp at h

end Json

end MicroC
