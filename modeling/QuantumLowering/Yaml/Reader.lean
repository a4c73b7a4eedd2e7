import QuantumLowering.Yaml.Basic
import QuantumLowering.Yaml.Token.Scan
/-!
# Reading YAML

`Yaml.read?` accepts a text with one document or none. The tokens of the
document are put together by recursive descent. Each token is taken up
once and at most four steps are made for it, so their number bounds the
depth.

An anchor puts its node into a slot, and an alias refers to the slot that
its name was last used for. The slot of an anchor is counted by the names
that are known before it. So a name that is used again shares its slot
with the next new name, and the node that gets there last counts for all
aliases to the slot.
-/


namespace QuantumLowering

namespace Yaml

/-! ## Anchors -/

/-- An anchored node. It is an absent value while it is being read. -/
structure Anchor where
  name : String
  /-- The slot of the node. -/
  slot : Nat
  /-- How many names are known after it. -/
  known : Nat
  node : Yaml

/-- The anchored nodes, the one that starts last in front. -/
abbrev Anchors := List Anchor

namespace Anchors

/-- Enters a node that is about to be read. -/
def begin (anchors : Anchors) (name : String) : Anchors :=
  let known := anchors.head?.elim 0 Anchor.known
  let isKnown := anchors.any fun a => a.name == name
  ⟨name, known, if isKnown then known else known + 1, absent⟩ :: anchors

/-- Completes the node that was entered after `before` others. -/
def complete (anchors : Anchors) (before : Nat) (node : Yaml) : Anchors :=
  anchors.modify (anchors.length - before - 1) fun a => { a with node := node }

/-- The slot that a name was last used for. -/
def slot? (anchors : Anchors) (name : String) : Option Nat :=
  (anchors.find? fun a => a.name == name).map Anchor.slot

/-- What the slots hold in the end. -/
def slots (anchors : Anchors) : List (Nat × Yaml) := anchors.map fun a => (a.slot, a.node)

end Anchors

/-- A part of a document, with the anchors known after it and the tokens
after it. -/
abbrev Parsed (α : Type) := α × Anchors × List Token

/-! ## Properties of nodes -/

/-- The meanings of the handles of tags. -/
abbrev Handles := List (String × Option String)

/-- The handles that need no directive. -/
def standardHandles : Handles := [("!", some "!"), ("!!", some "tag:yaml.org,2002:")]

/-- The tag that a handle and the rest spell. Without a handle the rest is
the tag. A tag without a text is the empty one. -/
def resolveTag? (handles : Handles) (handle : String) (rest : Option String) : Option String :=
  if handle.isEmpty then some (rest.getD "")
  else (handles.lookup handle).map fun meaning =>
    (meaning.bind fun start => rest.map fun rest => start ++ rest).getD ""

/-- The properties of a node. -/
structure Properties where
  anchor : Option String := none
  tag : Option String := none

/-- Reads an anchor and a tag in front of a node, in either order. -/
def readProperties (handles : Handles) :
    List Token → Option (Properties × List Token)
  | .anchor name :: .tag handle rest :: ts => do
    pure (⟨some name, some (← resolveTag? handles handle rest)⟩, ts)
  | .tag handle rest :: .anchor name :: ts => do
    pure (⟨some name, some (← resolveTag? handles handle rest)⟩, ts)
  | .anchor name :: ts => some (⟨some name, none⟩, ts)
  | .tag handle rest :: ts => do pure (⟨none, some (← resolveTag? handles handle rest)⟩, ts)
  | ts => some ({}, ts)

/-! ## Nodes -/

/-- Whether a part of a block is left out before a token. -/
def endsBlockPart : List Token → Bool
  | .key :: _ => true
  | .value :: _ => true
  | .blockEnd :: _ => true
  | _ => false

/-- Whether an item of a block sequence is left out before a token. -/
def endsItem : List Token → Bool
  | .item :: _ => true
  | .blockEnd :: _ => true
  | _ => false

/-- Whether a part of a flow collection is left out before a token: a
comma or the end of the collection. -/
def endsFlowPart (ending : Token) : List Token → Bool
  | .comma :: _ => true
  | t :: _ => t = ending
  | [] => false

/-- The node left out after its properties, of which there has to be one. -/
def leftOut (tag : Option String) (anchored : Bool) (anchors : Anchors) (ts : List Token) :
    Option (Parsed Yaml) :=
  if anchored || tag.isSome then some (.scalar .plain tag "", anchors, ts) else none

mutual

/-- Reads a node. In a block it may be a block collection, and as a part
of a mapping a sequence without an indentation of its own. -/
def node (handles : Handles) (fuel : Nat) (inBlock inMember : Bool)
    (anchors : Anchors) (ts : List Token) : Option (Parsed Yaml) :=
  match fuel, ts with
  | 0, _ => none
  | _, .reference name :: rest => do
    pure (.reference (← anchors.slot? name), anchors, rest)
  | fuel + 1, ts => do
    let (properties, ts) ← readProperties handles ts
    match properties.anchor with
    | none => content handles fuel inBlock inMember properties.tag false anchors ts
    | some name => do
      let (y, later, rest) ← content handles fuel inBlock inMember properties.tag true
        (anchors.begin name) ts
      pure (y, later.complete anchors.length y, rest)

/-- Reads a node after its properties. One that has any may be left out. -/
def content (handles : Handles) (fuel : Nat) (inBlock inMember : Bool)
    (tag : Option String) (anchored : Bool) (anchors : Anchors) (ts : List Token) :
    Option (Parsed Yaml) :=
  match fuel, ts with
  | 0, _ => none
  | fuel + 1, .item :: rest =>
    if inMember then do
      let (items, anchors, rest) ← looseItems handles fuel anchors (.item :: rest)
      pure (.sequence items, anchors, rest)
    else leftOut tag anchored anchors (.item :: rest)
  | _, .scalar style text :: rest =>
    some (.scalar style tag text, anchors, rest)
  | fuel + 1, .flowSequence :: rest => do
    let (items, anchors, rest) ← flowItems handles fuel true anchors rest
    pure (.sequence items, anchors, rest)
  | fuel + 1, .flowMapping :: rest => do
    let (members, anchors, rest) ← flowMembers handles fuel true anchors rest
    pure (.mapping members, anchors, rest)
  | fuel + 1, .blockSequence :: rest =>
    if inBlock then do
      let (items, anchors, rest) ← blockItems handles fuel anchors rest
      pure (.sequence items, anchors, rest)
    else leftOut tag anchored anchors (.blockSequence :: rest)
  | fuel + 1, .blockMapping :: rest =>
    if inBlock then do
      let (members, anchors, rest) ← blockMembers handles fuel anchors rest
      pure (.mapping members, anchors, rest)
    else leftOut tag anchored anchors (.blockMapping :: rest)
  | _, ts => leftOut tag anchored anchors ts

/-- Reads the items of a block sequence. -/
def blockItems (handles : Handles) (fuel : Nat) (anchors : Anchors)
    (ts : List Token) : Option (Parsed (List Yaml)) :=
  match fuel, ts with
  | fuel + 1, .item :: ts => do
    let (y, anchors, ts) ←
      if endsItem ts then pure (absent, anchors, ts)
      else node handles fuel true false anchors ts
    let (ys, anchors, ts) ← blockItems handles fuel anchors ts
    pure (y :: ys, anchors, ts)
  | _, .blockEnd :: ts => some ([], anchors, ts)
  | _, _ => none

/-- Reads the items of a block sequence in the column of the mapping that
it belongs to. -/
def looseItems (handles : Handles) (fuel : Nat) (anchors : Anchors)
    (ts : List Token) : Option (Parsed (List Yaml)) :=
  match fuel, ts with
  | 0, _ => none
  | fuel + 1, .item :: ts => do
    let (y, anchors, ts) ←
      if endsItem ts || endsBlockPart ts then pure (absent, anchors, ts)
      else node handles fuel true false anchors ts
    let (ys, anchors, ts) ← looseItems handles fuel anchors ts
    pure (y :: ys, anchors, ts)
  | _, ts => some ([], anchors, ts)

/-- Reads the members of a block mapping. -/
def blockMembers (handles : Handles) (fuel : Nat) (anchors : Anchors)
    (ts : List Token) : Option (Parsed (List (Yaml × Yaml))) :=
  match fuel, ts with
  | fuel + 1, .key :: ts => do
    let (name, anchors, ts) ←
      if endsBlockPart ts then pure (absent, anchors, ts)
      else node handles fuel true true anchors ts
    let (y, anchors, ts) ← match ts with
      | .value :: ts =>
        if endsBlockPart ts then pure (absent, anchors, ts)
        else node handles fuel true true anchors ts
      | ts => pure (absent, anchors, ts)
    let (ms, anchors, ts) ← blockMembers handles fuel anchors ts
    pure ((name, y) :: ms, anchors, ts)
  | _, .blockEnd :: ts => some ([], anchors, ts)
  | _, _ => none

/-- Reads the items of a flow sequence. A comma stands before each but the
first. -/
def flowItems (handles : Handles) (fuel : Nat) (isFirst : Bool) (anchors : Anchors)
    (ts : List Token) : Option (Parsed (List Yaml)) :=
  match fuel, isFirst, ts with
  | 0, _, _ => none
  | _, _, .flowSequenceEnd :: ts => some ([], anchors, ts)
  | _, false, .comma :: .flowSequenceEnd :: ts => some ([], anchors, ts)
  | fuel + 1, false, .comma :: ts => flowItem handles fuel anchors ts
  | _, false, _ => none
  | fuel + 1, true, ts => flowItem handles fuel anchors ts

/-- Reads an item of a flow sequence and those after it. A single member
is a mapping of its own. -/
def flowItem (handles : Handles) (fuel : Nat) (anchors : Anchors)
    (ts : List Token) : Option (Parsed (List Yaml)) :=
  match fuel, ts with
  | 0, _ => none
  | fuel + 1, .key :: ts => do
    let (name, anchors, ts) ←
      if endsFlowPart .flowSequenceEnd ts || ts.head? = some .value then
        pure (absent, anchors, ts.drop 1)
      else node handles fuel false false anchors ts
    let (y, anchors, ts) ← flowValue handles fuel .flowSequenceEnd anchors ts
    let (ys, anchors, ts) ← flowItems handles fuel false anchors ts
    pure (.mapping [(name, y)] :: ys, anchors, ts)
  | fuel + 1, ts => do
    let (y, anchors, ts) ← node handles fuel false false anchors ts
    let (ys, anchors, ts) ← flowItems handles fuel false anchors ts
    pure (y :: ys, anchors, ts)

/-- Reads the members of a flow mapping. A comma stands before each but
the first. -/
def flowMembers (handles : Handles) (fuel : Nat) (isFirst : Bool)
    (anchors : Anchors) (ts : List Token) : Option (Parsed (List (Yaml × Yaml))) :=
  match fuel, isFirst, ts with
  | 0, _, _ => none
  | _, _, .flowMappingEnd :: ts => some ([], anchors, ts)
  | _, false, .comma :: .flowMappingEnd :: ts => some ([], anchors, ts)
  | fuel + 1, false, .comma :: ts => flowMember handles fuel anchors ts
  | _, false, _ => none
  | fuel + 1, true, ts => flowMember handles fuel anchors ts

/-- Reads a member of a flow mapping and those after it. A node without a
colon is a name whose value is left out. -/
def flowMember (handles : Handles) (fuel : Nat) (anchors : Anchors)
    (ts : List Token) : Option (Parsed (List (Yaml × Yaml))) :=
  match fuel, ts with
  | 0, _ => none
  | fuel + 1, .key :: ts => do
    let (name, anchors, ts) ←
      if endsFlowPart .flowMappingEnd ts || ts.head? = some .value then pure (absent, anchors, ts)
      else node handles fuel false false anchors ts
    let (y, anchors, ts) ← flowValue handles fuel .flowMappingEnd anchors ts
    let (ms, anchors, ts) ← flowMembers handles fuel false anchors ts
    pure ((name, y) :: ms, anchors, ts)
  | fuel + 1, ts => do
    let (name, anchors, ts) ← node handles fuel false false anchors ts
    let (ms, anchors, ts) ← flowMembers handles fuel false anchors ts
    pure ((name, absent) :: ms, anchors, ts)

/-- Reads the value of a member of a flow collection, if there is one. -/
def flowValue (handles : Handles) (fuel : Nat) (ending : Token) (anchors : Anchors)
    (ts : List Token) : Option (Parsed Yaml) :=
  match fuel, ts with
  | 0, _ => none
  | fuel + 1, .value :: ts =>
    if endsFlowPart ending ts then some (absent, anchors, ts)
    else node handles fuel false false anchors ts
  | _, ts => some (absent, anchors, ts)

end

/-! ## Documents -/

/-- Reads the directives in front of a document: the handles of tags that
they define, and whether they name a version, which may happen once. -/
def readDirectives (handles : Handles) (versioned : Bool) :
    List Token → Option (Handles × List Token)
  | .version major minor :: ts =>
    if versioned || major != 1 || !(minor = 1 || minor = 2) then none
    else readDirectives handles true ts
  | .tagHandle handle meaning :: ts =>
    if (handles.lookup handle).isSome then none
    else readDirectives ((handle, meaning) :: handles) versioned ts
  | ts => some (handles, ts)

/-- Whether a document has no content before a token. -/
def endsDocument : List Token → Bool
  | [] => true
  | .version _ _ :: _ => true
  | .tagHandle _ _ :: _ => true
  | .documentStart :: _ => true
  | .documentEnd :: _ => true
  | _ => false

/-- Reads a document. Without a mark in front of it, it has no directives
and no empty content. -/
def readDocument (ts : List Token) : Option (Parsed Yaml) := do
  let fuel := 4 * ts.length + 4
  let (handles, rest) ← readDirectives [] false ts
  match rest with
  | .documentStart :: rest =>
    if endsDocument rest then pure (absent, [], rest)
    else node (handles ++ standardHandles) fuel true false [] rest
  | _ =>
    if !handles.isEmpty || rest.length != ts.length then none
    else node standardHandles fuel true false [] ts

/-- Reads a text with one document. Text without content is an absent
value. -/
def read? (text : String) : Option Place := do
  match ← tokens? text with
  | [] => pure ⟨[], absent⟩
  | ts =>
    let (y, anchors, rest) ← readDocument ts
    if rest.all fun t => t = .documentEnd then pure ⟨anchors.slots, y⟩ else none

end Yaml

end QuantumLowering
