import LeastSquares.Proofs.Settings.Fields

/-!
# Settings over their defaults

Tags, configurations and backtracking searches are read from objects that hold some of their fields. As
long as no field is there twice and every field that is there can be read, the object is read, and what
it leaves out is filled in by the default. Neither the order of the members nor members of other names
change anything, and a field that is there twice is refused (`settings_over_defaults`). The tags inside
a configuration are read in the same way as tags by themselves.

The names in an object are texts here. A name with half of a surrogate pair spells none, and an object
that holds one is no record.
-/

namespace LeastSquares

/-- A record of which every field has a default, as it is read from objects. -/
structure ReadsOverDefaults {β : Type} (fields : List String) (read : Json → Option β)
    (Readable : List (String × Json) → Prop) (overDefault : List (String × Json) → β) : Prop where
  reads : ∀ members, AtMostOnce fields members → Readable members →
    read (.ofMembers members) = some (overDefault members)
  reordered : ∀ members members' : List (String × Json), members.Perm members' →
    read (.ofMembers members) = read (.ofMembers members')
  withoutUnknown : ∀ (members : List (String × Json)) (keep : String × Json → Bool),
    (∀ m ∈ members, m.1 ∈ fields → keep m = true) →
    read (.ofMembers (members.filter keep)) = read (.ofMembers members)
  repeated : ∀ members : List (String × Json), ∀ name ∈ fields,
    2 ≤ (members.map Prod.fst).count name → read (.ofMembers members) = none

theorem AsksForFields.readsOverDefaults {β : Type} {fields : List String} {read : Json → Option β}
    {Readable : List (String × Json) → Prop} {overDefault : List (String × Json) → β}
    (h : AsksForFields fields read)
    (reads : ∀ members, AtMostOnce fields members → Readable members →
      read (.ofMembers members) = some (overDefault members)) :
    ReadsOverDefaults fields read Readable overDefault where
  reads := reads
  reordered _ _ hperm := h.reorder hperm
  withoutUnknown _ _ hkeep := h.filter hkeep
  repeated _ _ hname hcount := h.of_repeated hname hcount

section Tags

namespace Tags

theorem asksForFields : AsksForFields fields ofJson? := by
  refine ⟨_, fun j => rfl, fun record record' _ hvalue => ?_⟩
  simp only [JsonRecord.withDefault, hvalue "symmetric" (by decide),
    hvalue "positive_semidefinite" (by decide)]

/-- Each of the tags that are there is a truth value. -/
structure Readable (members : List (String × Json)) : Prop where
  symmetric : HoldsReadable members "symmetric" Json.bool?
  positiveSemidefinite : HoldsReadable members "positive_semidefinite" Json.bool?

/-- No tags, overwritten by those that are there. -/
def overDefault (members : List (String × Json)) : Tags where
  symmetric := fieldValue members "symmetric" Json.bool? ({} : Tags).symmetric
  positiveSemidefinite :=
    fieldValue members "positive_semidefinite" Json.bool? ({} : Tags).positiveSemidefinite

theorem ofJson?_overDefault {members : List (String × Json)} (honce : AtMostOnce fields members)
    (h : Readable members) : ofJson? (.ofMembers members) = some (overDefault members) := by
  simp only [ofJson?, JsonRecord.of?_ofMembers honce, Option.bind_eq_bind, Option.bind_some,
    JsonRecord.withDefault_eq h.symmetric, JsonRecord.withDefault_eq h.positiveSemidefinite]
  rfl

end Tags

end Tags

section Config

namespace Config

theorem asksForFields : AsksForFields fields ofJson? := by
  refine ⟨_, fun j => rfl, fun record record' _ hvalue => ?_⟩
  simp only [JsonRecord.withDefault, hvalue "max_steps" (by decide), hvalue "throw" (by decide),
    hvalue "tags" (by decide)]

/-- Each of the fields that are there can be read. -/
structure Readable (members : List (String × Json)) : Prop where
  maxSteps : HoldsReadable members "max_steps" Json.count?
  throw : HoldsReadable members "throw" Json.bool?
  tags : HoldsReadable members "tags" Tags.ofJson?

/-- The standard configuration, overwritten by the fields that are there. -/
def overDefault (members : List (String × Json)) : Config where
  maxSteps := fieldValue members "max_steps" Json.count? standard.maxSteps
  throw := fieldValue members "throw" Json.bool? standard.throw
  tags := fieldValue members "tags" Tags.ofJson? standard.tags

theorem ofJson?_overDefault {members : List (String × Json)} (honce : AtMostOnce fields members)
    (h : Readable members) : ofJson? (.ofMembers members) = some (overDefault members) := by
  simp only [ofJson?, JsonRecord.of?_ofMembers honce, Option.bind_eq_bind, Option.bind_some,
    JsonRecord.withDefault_eq h.maxSteps, JsonRecord.withDefault_eq h.throw,
    JsonRecord.withDefault_eq h.tags]
  rfl

section Nested

variable {members inner inner' : List (String × Json)}

/-- A configuration whose tags cannot be read is refused. -/
theorem ofJson?_of_unreadableTags {j : Json} (honce : AtMostOnce fields members)
    (htags : members.lookup "tags" = some j) (hnone : Tags.ofJson? j = none) :
    ofJson? (.ofMembers members) = none := by
  simp only [ofJson?, JsonRecord.of?_ofMembers honce, Option.bind_eq_bind, Option.bind_some,
    JsonRecord.withDefault_of_unreadable htags hnone, Option.bind_none, Option.bind_fun_none]

/-- A configuration does not tell values apart that are the same tags. -/
theorem ofJson?_replaceTags (front back : List (String × Json)) {j j' : Json}
    (htags : Tags.ofJson? j = Tags.ofJson? j') :
    ofJson? (.ofMembers (front ++ ("tags", j) :: back)) =
      ofJson? (.ofMembers (front ++ ("tags", j') :: back)) := by
  have hnames : (front ++ ("tags", j) :: back).map Prod.fst =
      (front ++ ("tags", j') :: back).map Prod.fst := by simp
  by_cases honce : AtMostOnce fields (front ++ ("tags", j) :: back)
  · have hother : AtMostOnce fields (front ++ ("tags", j') :: back) := by
      rw [AtMostOnce, ← hnames]
      exact honce
    have hlookup := lookup_of_mem (honce "tags" (by decide)) (j := j) (by simp)
    have hlookup' := lookup_of_mem (hother "tags" (by decide)) (j := j') (by simp)
    simp only [ofJson?, JsonRecord.of?_ofMembers honce, JsonRecord.of?_ofMembers hother,
      Option.bind_eq_bind, Option.bind_some, JsonRecord.withDefault, hlookup, hlookup', htags,
      lookup_replace front back (show "max_steps" ≠ "tags" by decide) j j',
      lookup_replace front back (show "throw" ≠ "tags" by decide) j j']
  · -- The names are the same, so the second object is refused for the same name.
    simp only [AtMostOnce, not_forall, Nat.not_le] at honce
    obtain ⟨name, hname, hcount⟩ := honce
    rw [asksForFields.of_repeated hname hcount,
      asksForFields.of_repeated hname (hnames ▸ hcount)]

/-- The tags inside a configuration are read as tags by themselves. -/
structure ReadsNestedTags : Prop where
  reads : ∀ members inner, AtMostOnce fields members → ("tags", .ofMembers inner) ∈ members →
    HoldsReadable members "max_steps" Json.count? → HoldsReadable members "throw" Json.bool? →
    AtMostOnce Tags.fields inner → Tags.Readable inner →
    ofJson? (.ofMembers members) = some { overDefault members with tags := Tags.overDefault inner }
  sameKnown : ∀ front back inner inner', SameKnown Tags.fields inner inner' →
    ofJson? (.ofMembers (front ++ ("tags", .ofMembers inner) :: back)) =
      ofJson? (.ofMembers (front ++ ("tags", .ofMembers inner') :: back))
  repeated : ∀ members inner, ("tags", .ofMembers inner) ∈ members →
    ∀ name ∈ Tags.fields, 2 ≤ (inner.map Prod.fst).count name → ofJson? (.ofMembers members) = none

theorem readsNestedTags : ReadsNestedTags where
  reads := by
    intro members inner honce hmem hmaxSteps hthrow hinner hreadable
    have htags := Tags.ofJson?_overDefault hinner hreadable
    have hlookup := lookup_of_mem (honce "tags" (by decide)) hmem
    have hholds : HoldsReadable members "tags" Tags.ofJson? := by
      intro j hj
      have hsame := (lookup_of_mem (honce "tags" (by decide)) hj).symm.trans hlookup
      rw [Option.some.inj hsame]
      exact ⟨_, htags⟩
    rw [ofJson?_overDefault honce ⟨hmaxSteps, hthrow, hholds⟩, overDefault, fieldValue, fieldValue,
      fieldValue, hlookup, Option.bind_some, htags]
    rfl
  sameKnown := by
    intro front back inner inner' hsame
    exact ofJson?_replaceTags front back (Tags.asksForFields.congr hsame)
  repeated := by
    intro members inner hmem name hname hcount
    by_cases honce : AtMostOnce fields members
    · exact ofJson?_of_unreadableTags honce (lookup_of_mem (honce "tags" (by decide)) hmem)
        (Tags.asksForFields.of_repeated hname hcount)
    · simp only [AtMostOnce, not_forall, Nat.not_le] at honce
      obtain ⟨name', hname', hcount'⟩ := honce
      exact asksForFields.of_repeated hname' hcount'

end Nested

end Config

end Config

section Backtracking

variable {α : Type} [Scalar α] (scalar : Json → Option α)

namespace Backtracking

theorem asksForFields : AsksForFields fields (ofJson? scalar) := by
  refine ⟨_, fun j => rfl, fun record record' _ hvalue => ?_⟩
  simp only [JsonRecord.withDefault, hvalue "decrease_factor" (by decide),
    hvalue "slope" (by decide), hvalue "step_init" (by decide), hvalue "max_steps" (by decide)]

/-- Each of the fields that are there can be read. -/
structure Readable (members : List (String × Json)) : Prop where
  decreaseFactor : HoldsReadable members "decrease_factor" scalar
  slope : HoldsReadable members "slope" scalar
  stepInit : HoldsReadable members "step_init" scalar
  maxSteps : HoldsReadable members "max_steps" Json.count?

/-- The standard search, overwritten by the fields that are there. -/
def overDefault (members : List (String × Json)) : Backtracking α where
  decreaseFactor := fieldValue members "decrease_factor" scalar standard.decreaseFactor
  slope := fieldValue members "slope" scalar standard.slope
  stepInit := fieldValue members "step_init" scalar standard.stepInit
  maxSteps := fieldValue members "max_steps" Json.count? (standard : Backtracking α).maxSteps

variable {scalar}

theorem ofJson?_overDefault {members : List (String × Json)} (honce : AtMostOnce fields members)
    (h : Readable scalar members) :
    ofJson? scalar (.ofMembers members) = some (overDefault scalar members) := by
  simp only [ofJson?, JsonRecord.of?_ofMembers honce, Option.bind_eq_bind, Option.bind_some,
    JsonRecord.withDefault_eq h.decreaseFactor, JsonRecord.withDefault_eq h.slope,
    JsonRecord.withDefault_eq h.stepInit, JsonRecord.withDefault_eq h.maxSteps]
  rfl

end Backtracking

end Backtracking

section Overwriting

variable {α : Type} [Scalar α]

/-- Tags, configurations and backtracking searches are their defaults, overwritten by the fields that
an object holds, for every way of reading scalars. -/
theorem settings_over_defaults (scalar : Json → Option α) :
    ReadsOverDefaults Tags.fields Tags.ofJson? Tags.Readable Tags.overDefault ∧
    ReadsOverDefaults Config.fields Config.ofJson? Config.Readable Config.overDefault ∧
    ReadsOverDefaults Backtracking.fields (Backtracking.ofJson? scalar)
      (Backtracking.Readable scalar) (Backtracking.overDefault scalar) ∧
    Config.ReadsNestedTags := by
  refine ⟨?_, ?_, ?_, Config.readsNestedTags⟩
  · exact Tags.asksForFields.readsOverDefaults fun _ => Tags.ofJson?_overDefault
  · exact Config.asksForFields.readsOverDefaults fun _ => Config.ofJson?_overDefault
  · exact (Backtracking.asksForFields scalar).readsOverDefaults
      fun _ => Backtracking.ofJson?_overDefault

/-- A configuration with an unknown member between its fields, and with tags that leave one out. A field
that is there twice is refused, also where both hold the same value, and inside the tags as well. -/
theorem settings_over_defaults_partial :
    Config.ofJson? (.ofMembers [("tags", .ofMembers [("symmetric", .bool true)]),
      ("note", .array [.null, .ofText "x"]), ("max_steps", .ofNat 7)]) =
        some { Config.standard with maxSteps := 7, tags := { symmetric := true } } ∧
      Config.ofJson? (.ofMembers [("max_steps", .ofNat 7), ("throw", .bool true),
        ("max_steps", .ofNat 7)]) = none ∧
      Config.ofJson? (.ofMembers [("tags", .ofMembers [("symmetric", .bool true),
        ("symmetric", .bool false)])]) = none := by
  obtain ⟨-, hconfig, -, hnested⟩ := settings_over_defaults (α := Float) Json.float?
  refine ⟨?_, hconfig.repeated _ "max_steps" (by decide) (by decide),
    hnested.repeated _ _ List.mem_cons_self "symmetric" (by decide) (by decide)⟩
  refine hnested.reads _ [("symmetric", .bool true)] ?once ?mem ?_ ?_ ?inner ⟨?_, ?_⟩
  case mem => exact List.mem_cons_self
  all_goals decide

end Overwriting

end LeastSquares
