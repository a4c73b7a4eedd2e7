import QuantumLowering.Json.Basic
/-!
# Documents

A document is data made of scalars, lists and named members, whatever
text it was read from. A record is written with named members, of which
unknown ones are ignored and known ones may not repeat; where the format
allows it, also as the list of its fields in their order. `Fields` offers
both forms alike.
-/


namespace QuantumLowering

/-- Data in which records, lists and scalars can be looked for. -/
class Document (δ : Type) where
  /-- Whether the data stands for an absent value; nothing where it is marked
  as one and is none. -/
  isAbsent? : δ → Option Bool
  /-- The truth value that the data is. -/
  bool? : δ → Option Bool
  /-- The natural number below a limit that the data is. -/
  nat? : Nat → δ → Option Nat
  /-- The text that the data is. -/
  string? : δ → Option String
  /-- The name of the choice without data that the data is. -/
  choice? : δ → Option String
  /-- The list that the data is. -/
  items? : δ → Option (List δ)
  /-- The list that the data is where a record is looked for. -/
  positions? : δ → Option (List δ)
  /-- The named members that the data has, in order. -/
  members? : δ → Option (List (String × δ))
  /-- The members that the data has, in order, each under a choice without
  data. -/
  choices? : δ → Option (List (String × δ))

instance : Document Json where
  isAbsent? j := some j.isNull
  bool?
    | .bool b => some b
    | _ => none
  nat? limit
    | .number n => n.nat? limit
    | _ => none
  string?
    | .string s => some s
    | _ => none
  choice?
    | .string s => some s
    | .object [(s, .null)] => some s
    | _ => none
  items?
    | .array items => some items
    | _ => none
  positions?
    | .array items => some items
    | _ => none
  members?
    | .object members => some members
    | _ => none
  choices?
    | .object members => some members
    | _ => none

/-- The fields of a record. -/
structure Fields (δ : Type) where
  /-- Whether they are written with their names. -/
  named : Bool
  /-- The fields that are present. -/
  present : List (String × δ)

namespace Fields

variable {δ : Type} [Document δ] {α : Type}

/-- The fields among named members. None may repeat. -/
def ofMembers? (names : List String) (members : List (String × δ)) : Option (Fields δ) :=
  let present := members.filter fun m => names.contains m.1
  if names.any fun name => 1 < (present.filter fun m => m.1 == name).length then none
  else some ⟨true, present⟩

/-- The fields of a record written with named members. -/
def named? (names : List String) (d : δ) : Option (Fields δ) :=
  (Document.members? d).bind (ofMembers? names)

/-- The fields of a record written either way. A list may leave out the
last fields but not hold more than there are. -/
def read? (names : List String) (d : δ) : Option (Fields δ) :=
  match Document.members? d with
  | some members => ofMembers? names members
  | none =>
    match Document.positions? d with
    | some items => if items.length ≤ names.length then some ⟨false, names.zip items⟩ else none
    | none => none

/-- The fields of a choice, written with their names or, if it may be,
either way. -/
def ofChoice? (positional : Bool) (names : List String) (d : δ) : Option (Fields δ) :=
  if positional then read? names d else named? names d

/-- A field that has to be present. -/
def required? (f : Fields δ) (name : String) (decode : δ → Option α) : Option α :=
  (f.present.lookup name).bind decode

/-- A field with a default. -/
def withDefault? (f : Fields δ) (name : String) (default : α) (decode : δ → Option α) :
    Option α :=
  match f.present.lookup name with
  | some d => decode d
  | none => some default

end Fields

namespace Document

variable {δ : Type} [Document δ] {α : Type}

/-- A list of decoded items. -/
def listOf? (decode : δ → Option α) (d : δ) : Option (List α) :=
  (items? d).bind fun items => items.mapM decode

/-- A value that may be absent. -/
def nullable? (decode : δ → Option α) (d : δ) : Option (Option α) :=
  (isAbsent? d).bind fun absent => if absent then some none else (decode d).map some

end Document

/-- A field whose value may be absent: left out where fields are named, or
written as absent. -/
def Fields.nullable? {δ : Type} [Document δ] {α : Type} (f : Fields δ) (name : String)
    (decode : δ → Option α) : Option (Option α) :=
  match f.present.lookup name with
  | some d => Document.nullable? decode d
  | none => if f.named then some none else none

end QuantumLowering
