import ApiDecl.Auth.Request
import ApiDecl.Text.Base64
import ApiDecl.Text.Shown

/-!
# Authentication of requests

A method writes credentials into a request, and may fail.  Methods are kept by the names of their schemes;
the providers that they ask, and methods of any other make, may keep a state between one request and the
next.

* `Provider`: where configurations come from;
* `AuthMethod`, `Effect`: a method, and what it does;
* `AuthMethod.basic`, `AuthMethod.bearer`, `AuthMethod.apiKey`: the methods that write what a provider gives;
* `AuthMethods.applyAll`: methods applied in order, up to the first that fails;
* `AuthMethods.applyRequirements`: the first requirement that can be met, applied.
-/

namespace ApiDecl

/-- Gives a configuration each time it is asked, or fails; the next time it may answer otherwise. -/
abbrev Provider (σ α : Type) := σ → σ × Except AuthError α

/-- What a method does: the parameters that it writes, in order, and whether it fails after them. -/
structure Effect where
  writes : List Write
  result : Except AuthError Unit

/-- A way to authenticate requests.  Nothing of a request can be seen by it, so what it does depends only
on the state. -/
structure AuthMethod (σ : Type) where
  /-- The method in one line, without its secrets. -/
  description : String
  /-- What it does in a state, and the state afterwards. -/
  act : σ → σ × Effect

variable {σ : Type}

/-- The provider that always gives one configuration. -/
def Provider.fixed {α : Type} (given : α) : Provider σ α := fun state => (state, .ok given)

namespace AuthMethod

/-- Writes what is made of the configuration that a provider gives.  Without a provider there is nothing
to write, and a provider that fails lets the method fail. -/
def provided {α : Type} (provider : Option (Provider σ α)) (credentials : α → Write) (state : σ) :
    σ × Effect :=
  match provider with
  | none => (state, ⟨[], .ok ()⟩)
  | some ask =>
    match ask state with
    | (state, .ok given) => (state, ⟨[credentials given], .ok ()⟩)
    | (state, .error error) => (state, ⟨[], .error error⟩)

/-- Whether there is a provider, as the last field of a description. -/
def configured {α : Type} (provider : Option (Provider σ α)) : String :=
  "configured: " ++ (if provider.isSome then "true" else "false") ++ " \x7d"

/-- A name and a password, for HTTP's basic authentication. -/
def basic (provider : Option (Provider σ (String × String))) : AuthMethod σ where
  description := "HttpBasicAuthentication \x7b " ++ configured provider
  act := provided provider fun (username, password) =>
    let octets := (username ++ ":" ++ password).toUTF8.toList
    ⟨.header, "Authorization", "Basic " ++ Base64.encode octets⟩

/-- A token, for HTTP's bearer authentication. -/
def bearer (provider : Option (Provider σ String)) : AuthMethod σ where
  description := "HttpBearerAuthentication \x7b " ++ configured provider
  act := provided provider fun token => ⟨.header, "Authorization", "Bearer " ++ token⟩

/-- A key under a name. -/
def apiKey (name : String) (location : KeyLocation) (provider : Option (Provider σ String)) :
    AuthMethod σ where
  description := "ApiKeyAuthentication \x7b name: " ++ quoteShown name ++ ", location: " ++ location.title
    ++ ", " ++ configured provider
  act := provided provider fun key => ⟨location, name, key⟩

/-- Applies a method to a request. -/
def apply (method : AuthMethod σ) (state : σ) (r : Request) : σ × Request × Except AuthError Unit :=
  let (state, effect) := method.act state
  (state, r.writeAll effect.writes, effect.result)

end AuthMethod

/-- The method of a scheme with a fixed configuration, which must have the shape that the scheme needs. -/
def SchemeKind.authenticateWith (kind : SchemeKind) (scheme : String) (config : Config) :
    Except AuthError (AuthMethod σ) :=
  match kind, config with
  | .basic, .basic username password => .ok (.basic (some (.fixed (username, password))))
  | .bearer _, .bearer token | .oauth, .bearer token | .openId _, .bearer token =>
    .ok (.bearer (some (.fixed token)))
  | .apiKey name location, .apiKey key => .ok (.apiKey name location (some (.fixed key)))
  | kind, _ => .error (.configMismatch scheme kind.shape)

/-- The methods of schemes, by name. -/
abbrev AuthMethods (σ : Type) := List (String × AuthMethod σ)

namespace AuthMethods

/-- The method of a scheme. -/
def get? (m : AuthMethods σ) (scheme : String) : Option (AuthMethod σ) := Member.lookup scheme m

/-- A scheme has a method. -/
def contains (m : AuthMethods σ) (scheme : String) : Bool := Member.has scheme m

/-- Applies the method of a scheme. -/
def apply (m : AuthMethods σ) (scheme : String) (state : σ) (r : Request) :
    σ × Request × Except AuthError Unit :=
  match m.get? scheme with
  | some method => method.apply state r
  | none => (state, r, .error (.unknownScheme scheme))

/-- Applies the methods of schemes in order.  A failure leaves what has been written before it. -/
def applyAll (m : AuthMethods σ) : List String → σ → Request → σ × Request × Except AuthError Unit
  | [], state, r => (state, r, .ok ())
  | scheme :: rest, state, r =>
    match m.apply scheme state r with
    | (state, r, .ok ()) => applyAll m rest state r
    | (state, r, .error error) => (state, r, .error error)

/-- Applies the first requirement whose schemes all have methods.  Without one the request stays. -/
def applyRequirements (m : AuthMethods σ) (requirements : List (List String)) (state : σ)
    (r : Request) : σ × Request × Except AuthError Unit :=
  match requirements.find? fun schemes => schemes.all m.contains with
  | some schemes => m.applyAll schemes state r
  | none => (state, r, .ok ())

/-- The methods in one line. -/
def description (m : AuthMethods σ) : String :=
  "AuthMethods \x7b methods: \x7b"
    ++ String.intercalate ", " (m.map fun (name, method) => quoteShown name ++ ": " ++ method.description)
    ++ "\x7d \x7d"

end AuthMethods

end ApiDecl
