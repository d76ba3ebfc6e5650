import Mathlib.Data.List.Perm.Basic
import LeastSquares.Settings.Format

/-!
# The fields of a record

A record is read from an object by the members that its fields name. The object is refused if one of
them is there twice (`of?_of_repeated`), and otherwise a field is looked up among the members
(`of?_ofMembers`). So two objects whose members of known names are the same, in any order and between
any other members, are read alike by everything that asks for fields only (`AsksForFields.congr`).
-/

namespace LeastSquares

/-- The members of an object hold each of these names at most once. -/
def AtMostOnce (names : List String) (members : List (String × Json)) : Prop :=
  ∀ name ∈ names, (members.map Prod.fst).count name ≤ 1

/-- Whatever an object holds under a name is read. -/
def HoldsReadable {β : Type} (members : List (String × Json)) (name : String)
    (read : Json → Option β) : Prop :=
  ∀ j, (name, j) ∈ members → ∃ b, read j = some b

instance (names : List String) (members : List (String × Json)) :
    Decidable (AtMostOnce names members) :=
  inferInstanceAs (Decidable (∀ name ∈ names, (members.map Prod.fst).count name ≤ 1))

theorem holdsReadable_iff {β : Type} {members : List (String × Json)} {name : String}
    {read : Json → Option β} : HoldsReadable members name read ↔
      ∀ m ∈ members, m.1 = name → (read m.2).isSome = true := by
  simp only [HoldsReadable, Option.isSome_iff_exists]
  constructor
  · rintro h ⟨name', j⟩ hm rfl
    exact h j hm
  · intro h j hj
    exact h _ hj rfl

instance {β : Type} (members : List (String × Json)) (name : String) (read : Json → Option β) :
    Decidable (HoldsReadable members name read) := decidable_of_iff _ holdsReadable_iff.symm

/-- The value of a field: what the object holds under its name, and the default if it holds nothing. -/
def fieldValue {β : Type} (members : List (String × Json)) (name : String)
    (read : Json → Option β) (default : β) : β :=
  ((members.lookup name).bind read).getD default

section Lookup

variable {members members' : List (String × Json)} {name : String}

theorem lookup_eq_head? : members.lookup name =
    ((members.filter fun m => m.1 = name).head?).map Prod.snd := by
  induction members with
  | nil => rfl
  | cons member rest ih =>
      obtain ⟨name', j⟩ := member
      by_cases h : name = name'
      · simp [h]
      · simp [List.lookup_cons, beq_eq_false_iff_ne.mpr h, Ne.symm h, ih]

theorem mem_of_lookup {j : Json} (h : members.lookup name = some j) : (name, j) ∈ members := by
  induction members with
  | nil => cases h
  | cons member rest ih =>
      obtain ⟨name', j'⟩ := member
      by_cases hname : name = name'
      · subst hname
        rw [List.lookup_cons, beq_self_eq_true] at h
        cases h
        exact List.mem_cons_self
      · rw [List.lookup_cons, beq_eq_false_iff_ne.mpr hname] at h
        exact List.mem_cons_of_mem _ (ih h)

theorem count_eq_length_filter : (members.map Prod.fst).count name =
    (members.filter fun m => m.1 = name).length := by
  rw [List.count_eq_countP, List.countP_map, List.countP_eq_length_filter]
  congr 1

/-- A name that is there once is looked up to be what it holds. -/
theorem lookup_of_mem (h : (members.map Prod.fst).count name ≤ 1) {j : Json}
    (hj : (name, j) ∈ members) : members.lookup name = some j := by
  induction members with
  | nil => cases hj
  | cons member rest ih =>
      obtain ⟨name', j'⟩ := member
      by_cases hname : name = name'
      · subst hname
        rw [List.map_cons, List.count_cons_self] at h
        have hrest : name ∉ rest.map Prod.fst := List.count_eq_zero.mp (by omega)
        rcases List.mem_cons.mp hj with heq | hmem
        · cases heq
          simp
        · exact absurd (List.mem_map_of_mem hmem) hrest
      · rw [List.map_cons, List.count_cons_of_ne (Ne.symm hname)] at h
        have hmem : (name, j) ∈ rest := by
          rcases List.mem_cons.mp hj with heq | hmem
          · cases heq
            exact absurd rfl hname
          · exact hmem
        rw [List.lookup_cons, beq_eq_false_iff_ne.mpr hname]
        exact ih h hmem

/-- What is held under one name matters to no other. -/
theorem lookup_replace (front back : List (String × Json)) {name' : String} (h : name ≠ name')
    (j j' : Json) : (front ++ (name', j) :: back).lookup name =
      (front ++ (name', j') :: back).lookup name := by
  induction front with
  | nil => simp only [List.nil_append, List.lookup_cons, beq_eq_false_iff_ne.mpr h]
  | cons member rest ih =>
      obtain ⟨name₀, j₀⟩ := member
      simp only [List.cons_append, List.lookup_cons, ih]

theorem eq_of_perm_of_length_le_one {β : Type} {xs ys : List β} (h : xs.Perm ys)
    (hx : xs.length ≤ 1) : xs = ys := by
  match xs, hx with
  | [], _ => exact h.nil_eq
  | [x], _ => exact (List.perm_singleton.mp h.symm).symm

/-- Members of the same known names, in any order. -/
def SameKnown (names : List String) (members members' : List (String × Json)) : Prop :=
  (members.filter fun m => m.1 ∈ names).Perm (members'.filter fun m => m.1 ∈ names)

variable {names : List String}

theorem SameKnown.filter_name (h : SameKnown names members members') (hname : name ∈ names) :
    (members.filter fun m => m.1 = name).Perm (members'.filter fun m => m.1 = name) := by
  have hknown (ms : List (String × Json)) : (ms.filter fun m => m.1 = name) =
      (ms.filter fun m => m.1 ∈ names).filter fun m => m.1 = name := by
    rw [List.filter_filter]
    refine List.filter_congr fun m _ => ?_
    by_cases hm : m.1 = name
    · simp [hm, hname]
    · simp [hm]
  rw [hknown members, hknown members']
  exact List.Perm.filter _ h

theorem SameKnown.count_eq (h : SameKnown names members members') (hname : name ∈ names) :
    (members.map Prod.fst).count name = (members'.map Prod.fst).count name := by
  rw [count_eq_length_filter, count_eq_length_filter]
  exact (h.filter_name hname).length_eq

theorem SameKnown.lookup_eq (h : SameKnown names members members') (hname : name ∈ names)
    (honce : (members.map Prod.fst).count name ≤ 1) : members.lookup name = members'.lookup name := by
  rw [count_eq_length_filter] at honce
  rw [lookup_eq_head?, lookup_eq_head?, eq_of_perm_of_length_le_one (h.filter_name hname) honce]

theorem SameKnown.atMostOnce (h : SameKnown names members members') (honce : AtMostOnce names members) :
    AtMostOnce names members' := by
  intro name hname
  rw [← h.count_eq hname]
  exact honce name hname

end Lookup

namespace JsonRecord

variable {members members' : List (String × Json)} {fields : List String}

theorem member?_ofMembers (members : List (String × Json)) (name : String) :
    (Json.ofMembers members).member? name = members.lookup name := by
  induction members with
  | nil => rfl
  | cons member rest ih =>
      obtain ⟨name', j⟩ := member
      rw [Json.ofMembers, Json.member?] at ih ⊢
      by_cases h : name = name'
      · simp [h]
      · rw [List.lookup_cons, beq_eq_false_iff_ne.mpr h, ← ih]
        simp [Ne.symm h]

/-- Members with texts for names occur as often as the names do. -/
theorem occurrences_eq (members : List (String × Json)) (name : String) :
    occurrences (members.map fun m => (.text m.1, m.2)) name =
      (members.map Prod.fst).count name := by
  rw [occurrences, List.filter_map, List.length_map, count_eq_length_filter]
  congr 2
  funext m
  rw [Bool.eq_iff_iff]
  simp

theorem namesSpelled_texts (members : List (String × Json)) :
    namesSpelled (members.map fun m => (.text m.1, m.2)) = true := by
  simp [namesSpelled]

/-- An object that holds each field at most once is a record, whose fields are looked up. -/
theorem of?_ofMembers (h : AtMostOnce fields members) :
    of? fields (.ofMembers members) = some ⟨fun name => members.lookup name, false⟩ := by
  have hall : (fields.all fun name =>
      occurrences (members.map fun m => (.text m.1, m.2)) name ≤ 1) = true := by
    simp only [List.all_eq_true, decide_eq_true_eq, occurrences_eq]
    exact h
  have hvalue : (Json.ofMembers members).member? = fun name => members.lookup name :=
    funext (member?_ofMembers members)
  rw [← hvalue]
  simp only [Json.ofMembers, of?, namesSpelled_texts, hall, Bool.and_self, if_true]

/-- An object that holds a field twice is no record. -/
theorem of?_of_repeated {name : String} (hname : name ∈ fields)
    (h : 2 ≤ (members.map Prod.fst).count name) : of? fields (.ofMembers members) = none := by
  have hall : (fields.all fun name =>
      occurrences (members.map fun m => (.text m.1, m.2)) name ≤ 1) = false := by
    simp only [List.all_eq_false, decide_eq_true_eq, occurrences_eq]
    exact ⟨name, hname, by omega⟩
  simp only [Json.ofMembers, of?, namesSpelled_texts, hall, Bool.and_false, Bool.false_eq_true,
    if_false]

variable {β : Type}

/-- A field that is held at most once, and readable, has its value. -/
theorem withDefault_eq {name : String} {read : Json → Option β} {default : β}
    (h : HoldsReadable members name read) :
    withDefault ⟨fun name => members.lookup name, false⟩ name read default =
      some (fieldValue members name read default) := by
  unfold withDefault fieldValue
  dsimp only
  cases hlookup : members.lookup name with
  | none => rfl
  | some j =>
      obtain ⟨b, hb⟩ := h j (mem_of_lookup hlookup)
      simp [hb]

/-- A field whose value is not read makes a record unreadable. -/
theorem withDefault_of_unreadable {name : String} {read : Json → Option β} {default : β} {j : Json}
    (h : members.lookup name = some j) (hread : read j = none) :
    withDefault ⟨fun name => members.lookup name, false⟩ name read default = none := by
  simp [withDefault, h, hread]

end JsonRecord

/-- A reading that asks a value for nothing but the fields of a record. -/
def AsksForFields {β : Type} (fields : List String) (read : Json → Option β) : Prop :=
  ∃ build : JsonRecord → Option β,
    (∀ j, read j = (JsonRecord.of? fields j).bind build) ∧
    ∀ record record' : JsonRecord, record.positional = record'.positional →
      (∀ name ∈ fields, record.value? name = record'.value? name) → build record = build record'

namespace AsksForFields

variable {β : Type} {fields : List String} {read : Json → Option β} (h : AsksForFields fields read)
  {members members' : List (String × Json)}

include h

/-- A field that is there twice is refused. -/
theorem of_repeated {name : String} (hname : name ∈ fields)
    (hcount : 2 ≤ (members.map Prod.fst).count name) : read (.ofMembers members) = none := by
  obtain ⟨build, hread, -⟩ := h
  rw [hread, JsonRecord.of?_of_repeated hname hcount]
  rfl

/-- Objects with the same known members are read alike. -/
theorem congr (hsame : SameKnown fields members members') :
    read (.ofMembers members) = read (.ofMembers members') := by
  by_cases honce : AtMostOnce fields members
  · obtain ⟨build, hread, hbuild⟩ := h
    rw [hread, hread, JsonRecord.of?_ofMembers honce,
      JsonRecord.of?_ofMembers (hsame.atMostOnce honce)]
    exact hbuild _ _ rfl fun name hname => hsame.lookup_eq hname (honce name hname)
  · simp only [AtMostOnce, not_forall, Nat.not_le] at honce
    obtain ⟨name, hname, hcount⟩ := honce
    rw [h.of_repeated hname hcount, h.of_repeated hname (hsame.count_eq hname ▸ hcount)]

/-- The order of the members does not matter. -/
theorem reorder (hperm : members.Perm members') :
    read (.ofMembers members) = read (.ofMembers members') :=
  h.congr (hperm.filter _)

/-- Members that are no field do not matter. -/
theorem filter {keep : String × Json → Bool}
    (hkeep : ∀ m ∈ members, m.1 ∈ fields → keep m = true) :
    read (.ofMembers (members.filter keep)) = read (.ofMembers members) := by
  refine h.congr (List.Perm.of_eq ?_)
  rw [List.filter_filter]
  refine List.filter_congr fun m hm => ?_
  by_cases hknown : m.1 ∈ fields
  · simp [hknown, hkeep m hm hknown]
  · simp [hknown]

end AsksForFields

end LeastSquares
