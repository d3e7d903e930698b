import ApiDecl.Text.Blank
import ApiDecl.Text.Runs

/-!
# Media types

A media type counts without its parameters, without blanks around it and without regard to case.

* `essence`: what counts of a media type;
* `BodyFormat`, `ResponseFormat`: how a request body is encoded, and what a response holds.
-/

namespace ApiDecl

/-- A media type without its parameters, in lower case. -/
def essence (mediaType : String) : List Char :=
  lowerAscii (trim (mediaType.toList.takeWhile (· ≠ ';')))

/-- The essence of a media type is JSON. -/
def isJsonType (essence : List Char) : Bool :=
  endsWith "/json".toList essence || endsWith "+json".toList essence

/-- How a request body is encoded. -/
inductive BodyFormat where
  | json
  | formData
  | urlEncoded
  | other
  deriving DecidableEq

namespace BodyFormat

/-- The name of a body format. -/
def name : BodyFormat → String
  | .json => "json"
  | .formData => "formData"
  | .urlEncoded => "urlEncoded"
  | .other => "other"

/-- The body format of a media type. -/
def ofMediaType (mediaType : String) : BodyFormat :=
  let essence := essence mediaType
  if isJsonType essence then .json
  else if essence = "multipart/form-data".toList then .formData
  else if essence = "application/x-www-form-urlencoded".toList then .urlEncoded
  else .other

end BodyFormat

/-- What a response holds. -/
inductive ResponseFormat where
  | json
  | text
  | binary
  | unknown
  deriving DecidableEq

namespace ResponseFormat

/-- The name of a response format. -/
def name : ResponseFormat → String
  | .json => "json"
  | .text => "text"
  | .binary => "binary"
  | .unknown => "unknown"

/-- The response format of a media type. -/
def ofMediaType (mediaType : String) : ResponseFormat :=
  let essence := essence mediaType
  if isJsonType essence then .json
  else if startsWith "text/".toList essence || essence == "application/xml".toList
      || endsWith "+xml".toList essence then .text
  else if essence == "application/octet-stream".toList || startsWith "image/".toList essence
      || startsWith "audio/".toList essence || startsWith "video/".toList essence
      || essence == "application/pdf".toList then .binary
  else .unknown

end ResponseFormat

end ApiDecl
