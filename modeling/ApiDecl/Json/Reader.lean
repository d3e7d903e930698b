import ApiDecl.Json.Token

/-!
# Reading JSON

`Json.parse` reads one value from text.  It walks the tokens with a stack of the containers that are
still open, so it is one fold over the tokens; at most `depthLimit` containers may be open at once.
Of two members with one name the object keeps the place of the first and the value of the second.
-/

namespace ApiDecl

/-- The greatest number of containers open at once. -/
def depthLimit : Nat := 127

/-- An open container with what it holds so far. -/
inductive Frame where
  /-- An array, last item first. -/
  | array (done : List Json)
  /-- An object, and the member name whose value is awaited. -/
  | object (done : List (String × Json)) (name : String)

/-- What has to come next, with the open containers, innermost first. -/
inductive Reading where
  /-- A value. -/
  | awaitValue (frames : List Frame)
  /-- A first item or the end of the array. -/
  | firstItem (frames : List Frame)
  /-- A first member name or the end of the object. -/
  | firstName (frames : List Frame)
  /-- A member name, after a comma. -/
  | awaitName (done : List (String × Json)) (frames : List Frame)
  /-- A colon, after a member name. -/
  | awaitColon (done : List (String × Json)) (name : String) (frames : List Frame)
  /-- A comma or the end of the array. -/
  | afterItem (done : List Json) (frames : List Frame)
  /-- A comma or the end of the object. -/
  | afterMember (done : List (String × Json)) (frames : List Frame)
  /-- The end of the text. -/
  | finished (value : Json)

namespace Reading

/-- Hands a complete value to the innermost open container. -/
def give (value : Json) : List Frame → Reading
  | [] => finished value
  | .array done :: frames => afterItem (value :: done) frames
  | .object done name :: frames => afterMember (Member.put name value done) frames

/-- The start of a value. -/
def start (frames : List Frame) : Token → Option Reading
  | .scalar value => some (give value frames)
  | .openArray => if frames.length < depthLimit then some (firstItem frames) else none
  | .openObject => if frames.length < depthLimit then some (firstName frames) else none
  | _ => none

/-- One token further. -/
def step : Reading → Token → Option Reading
  | awaitValue frames, token => start frames token
  | firstItem frames, .closeArray => some (give (.array []) frames)
  | firstItem frames, token => start (.array [] :: frames) token
  | firstName frames, .closeObject => some (give (.object []) frames)
  | firstName frames, .scalar (.string key) => some (awaitColon [] key frames)
  | awaitName done frames, .scalar (.string key) => some (awaitColon done key frames)
  | awaitColon done key frames, .colon => some (awaitValue (.object done key :: frames))
  | afterItem done frames, .comma => some (awaitValue (.array done :: frames))
  | afterItem done frames, .closeArray => some (give (.array done.reverse) frames)
  | afterMember done frames, .comma => some (awaitName done frames)
  | afterMember done frames, .closeObject => some (give (.object done) frames)
  | _, _ => none

end Reading

/-- The value that JSON text denotes, if it is JSON. -/
def Json.parse (text : String) : Option Json := do
  let tokens ← Token.scan text
  match ← tokens.foldlM Reading.step (.awaitValue []) with
  | .finished value => some value
  | _ => none

end ApiDecl
