import ApiDecl.Json.Basic
import ApiDecl.Yaml.Token

/-!
# YAML nodes

The tokens of a document make one node.  The reader walks them with a stack of the collections that are
still open, so it is one fold over the tokens.  What is left out (a value behind a colon, say) is an
empty plain scalar.

* `Node`: scalars, collections, and references to nodes with anchors;
* `Anchors`: the numbers of anchors;
* `Reader.step`: one token further;
* `Node.ofTokens?`: the node of the only document of a text.
-/

namespace ApiDecl.Yaml

/-- What is said about a node. -/
structure Properties where
  /-- The number of its anchor. -/
  anchor : Option Nat
  tag : Option String
  deriving DecidableEq

/-- Nothing is said about a node. -/
def Properties.none : Properties := ⟨Option.none, Option.none⟩

/-- A node. -/
inductive Node where
  /-- The node of an anchor. -/
  | reference (anchor : Nat)
  | scalar (properties : Properties) (plain : Bool) (text : String)
  | sequence (properties : Properties) (items : List Node)
  | mapping (properties : Properties) (entries : List (Node × Node))

/-- A scalar that is left out. -/
def Node.absent : Node := .scalar .none true ""

/-! ### Open collections -/

/-- How a collection is written. -/
inductive Style where
  /-- In indented lines. -/
  | block
  /-- The items of a value in lines that are not indented deeper than its key. -/
  | compact
  /-- In brackets. -/
  | flow
  /-- The one entry of a mapping without brackets in a sequence in brackets. -/
  | pair
  deriving DecidableEq

/-- A collection that is still open, with what it holds so far, last first. -/
inductive Frame where
  /-- The document. -/
  | root (found : Option Node)
  | items (style : Style) (properties : Properties) (done : List Node)
  /-- A mapping, with the key whose value is awaited. -/
  | entries (style : Style) (properties : Properties) (done : List (Node × Node)) (key : Option Node)
  /-- A mapping in brackets that awaits a key without a value. -/
  | lone (properties : Properties) (done : List (Node × Node))

/-- Puts a complete node into the innermost collection. -/
def Frame.give (node : Node) : List Frame → List Frame
  | [] => []
  | .root _ :: rest => .root (some node) :: rest
  | .items style p done :: rest => .items style p (node :: done) :: rest
  | .lone p done :: rest => .entries .flow p ((node, .absent) :: done) none :: rest
  | .entries style p done none :: rest => .entries style p done (some node) :: rest
  | .entries .pair p done (some key) :: rest => give (.mapping p ((key, node) :: done).reverse) rest
  | .entries style p done (some key) :: rest => .entries style p ((key, node) :: done) none :: rest

/-! ### The state of a reader -/

/-- What has to come next. -/
inductive Phase where
  /-- Directives or a document. -/
  | prelude (directives : Bool)
  /-- The node of a document, which may be left out. -/
  | opened
  /-- A node, of which something is said already. -/
  | due (properties : Properties)
  /-- What may come behind an opening bracket or a comma. -/
  | fresh
  /-- What may come behind a node. -/
  | between

/-- A reader on its way. -/
structure Reader where
  /-- The numbers of the names of anchors. -/
  anchors : List (String × Nat)
  /-- The version has been given. -/
  versioned : Bool
  /-- The fronts of handles that directives give. -/
  handles : List (String × String)
  /-- Innermost first. -/
  frames : List Frame
  phase : Phase

namespace Reader

/-- The start of a text. -/
def start : Reader := ⟨[], false, [], [.root none], .prelude false⟩

/-- Goes on with other collections open. -/
def go (r : Reader) (frames : List Frame) (phase : Phase) : Option Reader :=
  some { r with frames, phase }

/-- A complete node. -/
def give (r : Reader) (node : Node) : Option Reader := r.go (Frame.give node r.frames) .between

/-- Names an anchor: its number is that of the names known before, and an old name changes its number. -/
def name (r : Reader) (anchor : String) : Reader × Nat :=
  let number := r.anchors.length
  ({ r with anchors := Member.put anchor number r.anchors }, number)

/-- The fronts of the handles that need no directive. -/
def commonHandles : List (String × String) := [("", ""), ("!", "!"), ("!!", "tag:yaml.org,2002:")]

/-- A tag in full. -/
def tag? (r : Reader) (tag : TagName) : Option String :=
  (Member.lookup tag.handle (r.handles ++ commonHandles)).map (· ++ tag.suffix)

/-! ### Steps -/

/-- A directive before the document; none may be given twice. -/
def directive (r : Reader) : Token → Option Reader
  | .version major minor =>
    if !r.versioned && major = 1 && (minor = 1 || minor = 2) then
      some { r with versioned := true, phase := .prelude true }
    else none
  | .handle handle front =>
    if Member.has handle r.handles then none
    else some { r with handles := r.handles ++ [(handle, front)], phase := .prelude true }
  | _ => none

/-- A node may be left out before a token. -/
def mayBeAbsent (frame : Frame) (token : Token) : Bool :=
  match frame, token with
  | .items .block _ _, .entry | .items .block _ _, .dedented => true
  | .items .compact _ _, .entry | .items .compact _ _, .key => true
  | .items .compact _ _, .value | .items .compact _ _, .dedented => true
  | .entries .block _ _ _, .key | .entries .block _ _ _, .value => true
  | .entries .block _ _ _, .dedented => true
  | .entries .flow _ _ none, .value | .entries .flow _ _ _, .comma => true
  | .entries .flow _ _ _, .closing .mapping => true
  | .entries .pair _ _ (some _), .comma | .entries .pair _ _ (some _), .closing .sequence => true
  | _, _ => false

/-- Ends what a token ends without being a part of it: compact items, and a key without a value. -/
def settle (token : Token) (frames : List Frame) : List Frame :=
  let frames :=
    match frames, token with
    | .items .compact _ _ :: _, .entry => frames
    | .items .compact p done :: rest, _ => Frame.give (.sequence p done.reverse) rest
    | _, _ => frames
  match frames, token with
  | .entries _ _ _ (some _) :: _, .value => frames
  | .entries _ _ _ (some _) :: _, _ => Frame.give .absent frames
  | _, _ => frames

/-- A token behind a node. -/
def between (r : Reader) (token : Token) : Option Reader :=
  let frames := settle token r.frames
  match frames, token with
  | .root (some _) :: _, .documentEnd | .root (some _) :: _, .finish => r.go frames .between
  | .items .block _ _ :: _, .entry | .items .compact _ _ :: _, .entry => r.go frames (.due .none)
  | .items .block p done :: rest, .dedented => r.go (Frame.give (.sequence p done.reverse) rest) .between
  | .items .flow _ _ :: _, .comma | .entries .flow _ _ none :: _, .comma => r.go frames .fresh
  | .items .flow p done :: rest, .closing .sequence =>
    r.go (Frame.give (.sequence p done.reverse) rest) .between
  | .entries .block _ _ none :: _, .key => r.go frames (.due .none)
  | .entries _ _ _ (some _) :: _, .value => r.go frames (.due .none)
  | .entries .block p done none :: rest, .dedented
  | .entries .flow p done none :: rest, .closing .mapping =>
    r.go (Frame.give (.mapping p done.reverse) rest) .between
  | _, _ => none

/-- A node is left out before a token. -/
def skipNode (r : Reader) (node : Node) (token : Token) : Option Reader :=
  (r.go (Frame.give node r.frames) .between).bind fun r => r.between token

/-- A token where a node is due. -/
def node (r : Reader) (p : Properties) (token : Token) : Option Reader :=
  let absent : Option Reader :=
    if p ≠ .none then r.skipNode (.scalar p true "") token
    else
      match r.frames with
      | frame :: _ => if mayBeAbsent frame token then r.skipNode .absent token else none
      | [] => none
  match token with
  | .reference name =>
    if p = .none then (Member.lookup name r.anchors).bind fun number => r.give (.reference number)
    else absent
  | .anchor name =>
    if p.anchor.isNone then
      let (r, number) := r.name name
      some { r with phase := .due { p with anchor := some number } }
    else absent
  | .tag name =>
    if p.tag.isNone then
      (r.tag? name).map fun tag => { r with phase := .due { p with tag := some tag } }
    else absent
  | .scalar plain text =>
    r.give (.scalar (if p.tag = some "!" then { p with tag := none } else p) plain text)
  | .opening .sequence => r.go (.items .flow p [] :: r.frames) .fresh
  | .opening .mapping => r.go (.entries .flow p [] none :: r.frames) .fresh
  | .indented .sequence => r.go (.items .block p [] :: r.frames) .between
  | .indented .mapping => r.go (.entries .block p [] none :: r.frames) .between
  | .entry =>
    match r.frames with
    | .entries .block _ _ _ :: _ => r.go (.items .compact p [] :: r.frames) (.due .none)
    | _ => absent
  | _ => absent

/-- A token behind an opening bracket or a comma. -/
def fresh (r : Reader) (token : Token) : Option Reader :=
  match r.frames, token with
  | .items .flow _ _ :: _, .closing .sequence | .entries .flow _ _ _ :: _, .closing .mapping =>
    r.between token
  | .items .flow _ _ :: _, .key => r.go (.entries .pair .none [] none :: r.frames) (.due .none)
  | .entries .flow _ _ _ :: _, .key => r.go r.frames (.due .none)
  | .entries .flow p done _ :: rest, token =>
    { r with frames := .lone p done :: rest }.node .none token
  | _, token => r.node .none token

/-- One token further. -/
def step (r : Reader) (token : Token) : Option Reader :=
  match r.phase, token with
  | .prelude _, .version _ _ | .prelude _, .handle _ _ => r.directive token
  | .prelude _, .documentStart => some { r with phase := .opened }
  | .prelude false, .finish => r.give .absent
  | .prelude true, _ => none
  | .prelude false, token => r.node .none token
  | .opened, .documentEnd | .opened, .finish => r.skipNode .absent token
  | .opened, token => r.node .none token
  | .due p, token => r.node p token
  | .fresh, token => r.fresh token
  | .between, token => r.between token

end Reader

/-- The node of the only document that tokens make.  A text without a document counts as an empty one. -/
def Node.ofTokens? (tokens : List Token) : Option Node := do
  match (← tokens.foldlM Reader.step .start).frames with
  | [.root found] => found
  | _ => none

end ApiDecl.Yaml
