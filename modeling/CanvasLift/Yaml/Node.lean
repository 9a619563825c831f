import CanvasLift.Yaml.Kind
import CanvasLift.Yaml.Token

/-!
The nodes of a YAML document. Nodes refer to each other by number, so an alias is just the number of
the node it stands for, which may even be around it.
-/

namespace CanvasLift.Yaml

inductive Content
  | scalar (text : WideText)
  | sequence (items : List Nat)
  | mapping (entries : List (Nat × Nat))

structure Node where
  kind : Kind
  content : Content

abbrev Graph := Array Node

structure Reading where
  tokens : Tokens
  nodes : Graph
  anchors : List (Text × Nat)
  handles : List (Text × Text)

abbrev Read := StateT Reading (Except Fault)

namespace Read

def refuse {α : Type} : Read α := throw .malformed

/-- The next token. A fault in the text is met where the tokens before it are used up. -/
def peek : Read (Option Token) := do
  match (← get).tokens with
  | ⟨[], some fault⟩ => throw fault
  | ⟨list, _⟩ => return list.head?

def skip : Read Unit := modify fun s ↦ { s with tokens := ⟨s.tokens.list.tail, s.tokens.fault⟩ }

/-- A new node, whose content may still change. -/
def add (kind : Kind) (content : Content) : Read Nat :=
  modifyGet fun s ↦ (s.nodes.size, { s with nodes := s.nodes.push ⟨kind, content⟩ })

def fill (n : Nat) (kind : Kind) (content : Content) : Read Unit :=
  modify fun s ↦ { s with nodes := s.nodes.setIfInBounds n ⟨kind, content⟩ }

def missing : Read Nat := add .null (.scalar [])

def defaultHandles : List (Text × Text) := [("!", "!"), ("!!", Kind.standard)]

def tag? : Read (Option (Option Text × Text)) := do
  match ← peek with
  | some (.tag handle rest) =>
    skip
    return some (handle, rest)
  | _ => return none

def expand (tag : Option Text × Text) : Read Text := do
  match tag with
  | (none, rest) => return rest
  | (some h, rest) =>
    match (← get).handles.lookup h with
    | some front => return front ++ rest
    | none => refuse

def anchor? : Read (Option Text) := do
  match ← peek with
  | some (.anchor name) =>
    skip
    return some name
  | _ => return none

def properties : Read (Option Text × Option Text) := do
  let anchor ← anchor?
  let tag ← tag?
  let anchor ← if anchor.isNone ∧ tag.isSome then anchor? else pure anchor
  return (← tag.mapM expand, anchor)

def name (anchor : Option Text) (n : Nat) : Read Unit := do
  match anchor with
  | none => return
  | some a =>
    let s ← get
    if (s.anchors.lookup a).isSome then refuse
    set { s with anchors := (a, n) :: s.anchors }

def tagless (tag : Option Text) : Bool := tag.isNone || tag = some ['!']

/-- The kind of a collection, which is the given one unless a tag says otherwise. -/
def collectionKind (tag : Option Text) (kind : Kind) : Kind :=
  if tagless tag then kind else Kind.ofTag (tag.getD [])

/-- The kind of a scalar. One that is marked as having no tag counts as plain. -/
def scalarKind (tag : Option Text) (text : WideText) (plain : Bool) : Kind :=
  match tag with
  | none => if plain then Kind.ofPlain text.masked else .text
  | some t => if t = ['!'] then Kind.ofPlain text.masked else Kind.ofTag t

/-- Where a node may stand: inside brackets, in a block, or as the value of a key in a block, whose
sequence need not be indented. -/
inductive Position
  | flow
  | block
  | value
  deriving DecidableEq

def atBlockGap (t : Option Token) (alsoEntry : Bool) : Bool :=
  match t with
  | some .key | some .value | some .blockEnd => true
  | some .blockEntry => alsoEntry
  | _ => false

def atFlowGap (t : Option Token) : Bool :=
  match t with
  | some .value | some .flowEntry | some .flowSequenceEnd | some .flowMappingEnd => true
  | _ => false

def separator (first : Bool) : Read Unit := do
  if first then return
  match ← peek with
  | some .flowEntry => skip
  | _ => refuse

mutual

def node : (fuel : Nat) → Position → Read Nat
  | 0, _ => refuse
  | fuel + 1, position => do
    match ← peek with
    | some (.alias a) =>
      skip
      match (← get).anchors.lookup a with
      | some n => return n
      | none => refuse
    | _ =>
      let (tag, anchor) ← properties
      let collection (kind : Kind) (empty : Content) : Read Nat := do
        let n ← add (collectionKind tag kind) empty
        name anchor n
        return n
      let sequence (items : Read (List Nat)) : Read Nat := do
        let n ← collection .sequence (.sequence [])
        fill n (collectionKind tag .sequence) (.sequence (← items))
        return n
      let mapping (entries : Read (List (Nat × Nat))) : Read Nat := do
        let n ← collection .mapping (.mapping [])
        fill n (collectionKind tag .mapping) (.mapping (← entries))
        return n
      match ← peek with
      | some (.scalar text plain) =>
        skip
        let n ← add (scalarKind tag text plain) (.scalar text)
        name anchor n
        return n
      | some .flowSequenceStart => skip; sequence (flowItems fuel true)
      | some .flowMappingStart => skip; mapping (flowEntries fuel true)
      | some .blockEntry =>
        if position = .value then sequence (looseItems fuel) else noContent tag anchor
      | some .blockSequenceStart =>
        if position = .flow then noContent tag anchor
        else
          skip
          sequence (blockItems fuel)
      | some .blockMappingStart =>
        if position = .flow then noContent tag anchor
        else
          skip
          mapping (blockEntries fuel)
      | _ => noContent tag anchor

def noContent (tag anchor : Option Text) : Read Nat := do
  if tag.isNone ∧ anchor.isNone then refuse
  let n ← add (scalarKind tag [] true) (.scalar [])
  name anchor n
  return n

def blockItems : (fuel : Nat) → Read (List Nat)
  | 0 => refuse
  | fuel + 1 => do
    match ← peek with
    | some .blockEntry =>
      skip
      let next ← peek
      let item ←
        match next with
        | some .blockEntry | some .blockEnd => missing
        | _ => node fuel .block
      return item :: (← blockItems fuel)
    | some .blockEnd =>
      skip
      return []
    | _ => refuse

/-- The items of a sequence that is not indented more than the key before it. -/
def looseItems : (fuel : Nat) → Read (List Nat)
  | 0 => refuse
  | fuel + 1 => do
    match ← peek with
    | some .blockEntry =>
      skip
      let item ← if atBlockGap (← peek) true then missing else node fuel .block
      return item :: (← looseItems fuel)
    | _ => return []

def blockEntries : (fuel : Nat) → Read (List (Nat × Nat))
  | 0 => refuse
  | fuel + 1 => do
    match ← peek with
    | some .key =>
      skip
      let key ← if atBlockGap (← peek) false then missing else node fuel .value
      let value ← blockValue fuel
      return (key, value) :: (← blockEntries fuel)
    | some .blockEnd =>
      skip
      return []
    | _ => refuse

def blockValue : (fuel : Nat) → Read Nat
  | 0 => refuse
  | fuel + 1 => do
    match ← peek with
    | some .value =>
      skip
      if atBlockGap (← peek) false then missing else node fuel .value
    | _ => missing

def flowItems : (fuel : Nat) → (first : Bool) → Read (List Nat)
  | 0, _ => refuse
  | fuel + 1, first => do
    match ← peek with
    | some .flowSequenceEnd =>
      skip
      return []
    | _ =>
      separator first
      match ← peek with
      | some .flowSequenceEnd =>
        skip
        return []
      | some .key =>
        skip
        let n ← add .mapping (.mapping [])
        let key ← if atFlowGap (← peek) then missing else node fuel .flow
        let value ← flowValue fuel
        fill n .mapping (.mapping [(key, value)])
        return n :: (← flowItems fuel false)
      | _ =>
        let item ← node fuel .flow
        return item :: (← flowItems fuel false)

def flowEntries : (fuel : Nat) → (first : Bool) → Read (List (Nat × Nat))
  | 0, _ => refuse
  | fuel + 1, first => do
    match ← peek with
    | some .flowMappingEnd =>
      skip
      return []
    | _ =>
      separator first
      match ← peek with
      | some .flowMappingEnd =>
        skip
        return []
      | some .key =>
        skip
        let key ← if atFlowGap (← peek) then missing else node fuel .flow
        let value ← flowValue fuel
        return (key, value) :: (← flowEntries fuel false)
      | _ =>
        let key ← node fuel .flow
        let value ← missing
        return (key, value) :: (← flowEntries fuel false)

def flowValue : (fuel : Nat) → Read Nat
  | 0 => refuse
  | fuel + 1 => do
    match ← peek with
    | some .value =>
      skip
      if atFlowGap (← peek) then missing else node fuel .flow
    | _ => missing

end

/-- The directives in front of a document: one version at most, and that one 1, and no handle
twice. -/
def directives : (fuel : Nat) → (versioned : Bool) → Read Unit
  | 0, _ => refuse
  | fuel + 1, versioned => do
    match ← peek with
    | some (.directive d) =>
      skip
      match d with
      | .version major _ =>
        if versioned ∨ major ≠ 1 then refuse
        directives fuel true
      | .handle h expansion =>
        let s ← get
        if (s.handles.lookup h).isSome then refuse
        set { s with handles := (h, expansion) :: s.handles }
        directives fuel versioned
      | .other => directives fuel versioned
    | _ => return

def skipEnds : (fuel : Nat) → Read Unit
  | 0 => return
  | fuel + 1 => do
    match ← peek with
    | some .documentEnd =>
      skip
      skipEnds fuel
    | _ => return

def document : Read (Option Nat) := do
  let fuel := 4 * (← get).tokens.list.length + 4
  let explicit ←
    match ← peek with
    | none => return none
    | some (.directive _) | some .documentStart => do
      directives fuel false
      match ← peek with
      | some .documentStart => skip
      | _ => refuse
      pure true
    | some _ => pure false
  modify fun s ↦ { s with handles := s.handles ++ defaultHandles }
  let root ←
    match explicit, ← peek with
    | true, none | true, some (.directive _) | true, some .documentStart
    | true, some .documentEnd => missing
    | _, _ => node fuel .block
  skipEnds fuel
  match ← peek with
  | none => return some root
  | some _ =>
    modify fun s ↦ { s with handles := [] }
    directives fuel false
    refuse

end Read

def Graph.ofText (t : Text) : Except Fault (Graph × Option Nat) := do
  let (root, s) ← Read.document.run ⟨.ofText t, #[], [], []⟩
  return (s.nodes, root)

end CanvasLift.Yaml
