import CanvasLift.Yaml.Node
import CanvasLift.Yaml.Scalar

/-!
The value of a YAML document. Merge keys take in the entries of other mappings, where an entry of the
mapping itself counts more than one taken in. Faults are found in the order of a walk that handles
the items of a collection before what is inside them.
-/

namespace CanvasLift.Yaml

/-- A value as far as it can matter: what is no mapping, text, number or truth value is only known to
be empty or not, and a mapping has its text keys only. -/
inductive Value
  | null
  | bool (b : Bool)
  | int (i : Int)
  | float (x : Binary64)
  | text (w : WideText)
  | mapping (fields : List (WideText × Value))
  | other (isEmpty : Bool)

namespace Graph

def node? (g : Graph) (n : Nat) : Except Fault Node :=
  match g[n]? with
  | some node => .ok node
  | none => .error .malformed

def entries? (g : Graph) (n : Nat) : Option (List (Nat × Nat)) :=
  match g[n]? with
  | some ⟨_, .mapping entries⟩ => some entries
  | _ => none

def setEntries (g : Graph) (n : Nat) (entries : List (Nat × Nat)) : Graph :=
  match g[n]? with
  | some node => g.setIfInBounds n ⟨node.kind, .mapping entries⟩
  | none => g

def setKind (g : Graph) (n : Nat) (kind : Kind) : Graph :=
  match g[n]? with
  | some node => g.setIfInBounds n ⟨kind, node.content⟩
  | none => g

def kindOf (g : Graph) (n : Nat) : Kind := (g[n]?.map (·.kind)).getD .other

def splitMerge? (g : Graph) : List (Nat × Nat) → Option (Nat × List (Nat × Nat))
  | [] => none
  | (key, value) :: rest =>
    if g.kindOf key = .merge then some (value, rest)
    else (g.splitMerge? rest).map fun (found, others) ↦ (found, (key, value) :: others)

/-- The first and the last occurrence of each entry: the first one decides when the entry is looked
at, the last one which of two entries with one key counts. -/
def firstAndLast (entries : List (Nat × Nat)) : List (Nat × Nat) :=
  let rec go (before : List (Nat × Nat)) : List (Nat × Nat) → List (Nat × Nat)
    | [] => []
    | e :: rest =>
      if before.contains e && rest.contains e then go before rest else e :: go (e :: before) rest
  go [] entries

/-- The mappings with default keys as keys like others. -/
def plainKeys (g : Graph) (entries : List (Nat × Nat)) : Graph :=
  entries.foldl (fun g (key, _) ↦ if g.kindOf key = .default then g.setKind key .text else g) g

def mergeSources? (g : Graph) (n : Nat) : Option (List Nat) :=
  match g[n]? with
  | some ⟨_, .mapping _⟩ => some [n]
  | some ⟨_, .sequence items⟩ => some items
  | _ => none

/-- Resolves the merge keys of a mapping, with `taken` from earlier ones. A merge key is removed
before the mappings that it names are resolved in the same way, so one removal bounds the depth of
all that it leads to. Of the mappings that a key names the entries of the first one come last. -/
def merge : (fuel : Nat) → Graph → (n : Nat) → (taken : List (Nat × Nat)) → Except Fault Graph
  | 0, _, _, _ => .error .malformed
  | fuel + 1, g, n, taken =>
    match g.entries? n with
    | none => .error .malformed
    | some entries =>
      match g.splitMerge? entries with
      | none =>
        let g := g.plainKeys entries
        .ok (if taken = [] then g else g.setEntries n (firstAndLast (taken ++ entries)))
      | some (value, others) => do
        let some sources := g.mergeSources? value | throw .malformed
        let (g, more) ← sources.foldlM (fun ((g, more) : Graph × List (Nat × Nat)) source ↦ do
          let g ← merge fuel g source []
          return (g, firstAndLast ((g.entries? source).getD [] ++ more))) (g.setEntries n others, [])
        merge fuel g n (firstAndLast (taken ++ more))

def size (g : Graph) : Nat :=
  g.foldl (fun sum node ↦ sum + match node.content with
    | .scalar _ => 1
    | .sequence items => items.length + 1
    | .mapping entries => entries.length + 1) 1

/-- The nodes with the merge keys of a mapping resolved. There are no more of them than entries. -/
def resolveMerges (g : Graph) (n : Nat) : Except Fault Graph :=
  let fuel := if (((g.entries? n).bind g.splitMerge?)).isSome then g.size else 0
  g.merge (fuel + 1) n []

def scalarText : (fuel : Nat) → Graph → Nat → Except Fault WideText
  | 0, _, _ => .error .malformed
  | fuel + 1, g, n =>
    match g[n]? with
    | some ⟨_, .scalar w⟩ => .ok w
    | some ⟨_, .mapping entries⟩ =>
      match entries.find? fun (key, _) ↦ g.kindOf key = .default with
      | some (_, value) => scalarText fuel g value
      | none => .error .malformed
    | _ => .error .malformed

/-- The value of a node that is a scalar by its kind. A mapping stands for its default entry, but not
as a timestamp. -/
def scalar (g : Graph) (n : Nat) : Except Fault Scalar := do
  let text ← scalarText (Array.size g + 1) g n
  if g.kindOf n = .timestamp ∧ (g.entries? n).isSome then throw .timestampMapping
  Scalar.ofText (g.kindOf n) text

/-- Checking a document: its nodes, which of them have been seen, and the collections among those in
the order in which their items are looked at. -/
structure Check where
  graph : Graph
  seen : Array Bool
  queue : Array Nat

def visit (c : Check) (n : Nat) : Except Fault Check := do
  if c.seen[n]?.getD false then return c
  let c := { c with seen := c.seen.setIfInBounds n true }
  if (c.graph.kindOf n).isCollection then return { c with queue := c.queue.push n }
  discard (c.graph.scalar n)
  return c

/-- Looks at the key and the value of an entry. Collections are no keys. -/
def visitEntry (c : Check) (entry : Nat × Nat) : Except Fault Check := do
  let c ← visit c entry.1
  if (c.graph.kindOf entry.1).isCollection then throw .malformed
  visit c entry.2

def visitPair (c : Check) (n : Nat) : Except Fault Check := do
  match c.graph.entries? n with
  | some [(key, value)] => visit (← visit c key) value
  | _ => .error .malformed

def visitInside (c : Check) (n : Nat) : Except Fault Check := do
  match (← c.graph.node? n) with
  | ⟨.sequence, .sequence items⟩ => items.foldlM visit c
  | ⟨.pairs, .sequence items⟩ => items.foldlM visitPair c
  | ⟨.mapping, .mapping _⟩ | ⟨.set, .mapping _⟩ =>
    let c := { c with graph := (← c.graph.resolveMerges n) }
    ((c.graph.entries? n).getD []).foldlM visitEntry c
  | _ => .error .malformed

/-- Looks at what is in the collections from place `i` of the queue on. -/
def checkAll : (fuel i : Nat) → Check → Except Fault Graph
  | 0, _, c => .ok c.graph
  | fuel + 1, i, c =>
    match c.queue[i]? with
    | none => .ok c.graph
    | some n => do checkAll fuel (i + 1) (← visitInside c n)

def check (g : Graph) (root : Nat) : Except Fault Graph := do
  checkAll (Array.size g + 1) 0 (← visit ⟨g, Array.replicate (Array.size g) false, #[]⟩ root)

def ofScalar : Scalar → Value
  | .null => .null
  | .bool b => .bool b
  | .int i => .int i
  | .float x => .float x
  | .text w => .text w
  | .bytes count => .other (count = 0)
  | .moment => .other false

/-- The value of a node, down to a number of levels. -/
def unfold : (levels : Nat) → Graph → Nat → Value
  | 0, _, _ => .other false
  | levels + 1, g, n =>
    match g[n]? with
    | some ⟨.mapping, .mapping entries⟩ =>
      .mapping (entries.filterMap fun (key, value) ↦
        match g.scalar key with
        | .ok (.text w) => some (w, unfold levels g value)
        | _ => none)
    | some ⟨.set, .mapping entries⟩ => .other entries.isEmpty
    | some ⟨_, .sequence items⟩ => .other items.isEmpty
    | _ => match g.scalar n with
      | .ok s => ofScalar s
      | .error _ => .other false

end Graph

namespace Value

/-- Empty values, zeros, `false` and `null` do not hold; all else does. -/
def holds : Value → Bool
  | null => false
  | bool b => b
  | int i => i ≠ 0
  | float x => !x.isZero
  | text w => w ≠ []
  | mapping fields => !fields.isEmpty
  | other isEmpty => !isEmpty

def field? (key : Text) : Value → Option Value
  | mapping fields => fields.reverse.lookup (WideText.ofText key)
  | _ => none

def isDocumentChar (c : Char) : Bool :=
  let n := c.toNat
  c = '\t' || c = '\n' || c = '\r' || c = '\x85' || 0x20 ≤ n && n ≤ 0x7E || 0xA0 ≤ n && n ≤ 0xD7FF ||
    0xE000 ≤ n && n ≤ 0xFFFD || 0x10000 ≤ n

/-- The value of the document in a text, down to a number of levels; `null` where there is none. -/
def ofText (levels : Nat) (t : Text) : Except Fault Value := do
  if !t.all isDocumentChar then throw .malformed
  match ← Graph.ofText t with
  | (_, none) => return null
  | (g, some root) => return (← g.check root).unfold levels root

end Value

end CanvasLift.Yaml
