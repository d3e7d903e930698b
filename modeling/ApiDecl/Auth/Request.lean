import ApiDecl.Auth.Scheme
import ApiDecl.Text.Runs

/-!
# Request parameters

The parameters of an outgoing request.  A header or a cookie set again keeps its place, and a query
parameter set again moves to the end.

* `Request.setHeader`, `Request.setQuery`, `Request.setCookie`: parameters set;
* `Write`, `Request.writeAll`: parameters as data, and several of them written in order;
* `Request.header?`, `Request.query?`, `Request.cookieHeader?`: parameters read; header names are looked
  up without regard to case.
-/

namespace ApiDecl

/-- The parameters of a request. -/
structure Request where
  headers : List (String × String)
  query : List (String × String)
  cookies : List (String × String)
  deriving DecidableEq

/-- A parameter that is written into a request. -/
structure Write where
  location : KeyLocation
  name : String
  value : String
  deriving DecidableEq

namespace Request

/-- A request without parameters. -/
def empty : Request := ⟨[], [], []⟩

/-- Sets a header. -/
def setHeader (r : Request) (name value : String) : Request :=
  { r with headers := Member.put name value r.headers }

/-- Sets a query parameter. -/
def setQuery (r : Request) (name value : String) : Request :=
  { r with query := r.query.filter (fun entry => entry.1 != name) ++ [(name, value)] }

/-- Sets a cookie. -/
def setCookie (r : Request) (name value : String) : Request :=
  { r with cookies := Member.put name value r.cookies }

/-- Writes a parameter. -/
def write (r : Request) (w : Write) : Request :=
  match w.location with
  | .header => r.setHeader w.name w.value
  | .query => r.setQuery w.name w.value
  | .cookie => r.setCookie w.name w.value

/-- Writes parameters in order. -/
def writeAll (r : Request) (writes : List Write) : Request := writes.foldl write r

/-- The value of a header. -/
def header? (r : Request) (name : String) : Option String :=
  (r.headers.find? fun entry => sameIgnoringCase entry.1 name).map Prod.snd

/-- The value of a query parameter. -/
def query? (r : Request) (name : String) : Option String := Member.lookup name r.query

/-- All cookies in one header, if there are any. -/
def cookieHeader? (r : Request) : Option String :=
  if r.cookies.isEmpty then none
  else some (String.intercalate "; " (r.cookies.map fun (name, value) => name ++ "=" ++ value))

end Request

end ApiDecl
