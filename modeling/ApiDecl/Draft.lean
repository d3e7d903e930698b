import ApiDecl.Error

/-!
# Drafts

A part of a description is compiled by itself, without entering the named schemas that it refers to.  The
result is a draft: the named schemas mentioned on the way, in order, and what came out.  An error ends the
way, so nothing behind it is mentioned.
-/

namespace ApiDecl

/-- A reference to a named schema. -/
structure Mention where
  /-- The component that the reference leads to. -/
  component : String
  /-- The name of its type. -/
  name : String
  /-- The pointer, as the reference gives it. -/
  pointer : String
  deriving DecidableEq

/-- The mentions on a way, and what came out. -/
structure Draft (α : Type) where
  mentions : List Mention
  result : Except Error α

namespace Draft

variable {α β : Type}

/-- A value without mentions. -/
protected def pure (value : α) : Draft α := ⟨[], .ok value⟩

/-- Goes on from what came out. -/
protected def bind (draft : Draft α) (next : α → Draft β) : Draft β :=
  match draft.result with
  | .ok value =>
    let rest := next value
    ⟨draft.mentions ++ rest.mentions, rest.result⟩
  | .error error => ⟨draft.mentions, .error error⟩

instance : Monad Draft where
  pure := Draft.pure
  bind := Draft.bind

/-- An error. -/
def fail (error : Error) : Draft α := ⟨[], .error error⟩

/-- An error or a value, without mentions. -/
def ofExcept (result : Except Error α) : Draft α := ⟨[], result⟩

/-- Mentions a named schema. -/
def mention (m : Mention) : Draft Unit := ⟨[m], .ok ()⟩

/-- Drafts one after the other. -/
def all : List (Draft α) → Draft (List α)
  | [] => pure []
  | draft :: rest => do
    let value ← draft
    let values ← all rest
    pure (value :: values)

theorem bind_ok {draft : Draft α} {value : α} (h : draft.result = .ok value) (next : α → Draft β) :
    draft.bind next = ⟨draft.mentions ++ (next value).mentions, (next value).result⟩ := by
  simp [Draft.bind, h]

theorem bind_error {draft : Draft α} {error : Error} (h : draft.result = .error error)
    (next : α → Draft β) : draft.bind next = ⟨draft.mentions, .error error⟩ := by
  simp [Draft.bind, h]

end Draft

end ApiDecl
