import QlikMigration.Json.Access
import QlikMigration.Json.Display
import QlikMigration.Json.Reader

/-!
# Reading a model's reply

A model replies in words around a document. The document is taken from the first
opening brace to the last closing one. It has to have pages, and each page is
completed by empty lists for its visuals, slicers and filters where it has none.

A page may be something other than an object. Then it is only asked whether it
contains the three names, and it cannot be completed.
-/

namespace QlikMigration.Vision

open Json (Value)

/-- Why a reply is no analysis. -/
inductive ReplyError
  /-- There is no document in the reply. -/
  | noDocument
  /-- What stands between the braces cannot be read as a document. -/
  | document (cause : Json.ReadError)
  /-- The document has no pages. -/
  | noPages
  /-- The pages are not a list, or an empty one. -/
  | emptyPages
  /-- A page contains nothing, being of this kind. -/
  | notContainer (kind : String)
  /-- A page that is a text cannot be completed. -/
  | textPage
  /-- A page that is a list cannot be completed. -/
  | listPage
  deriving DecidableEq, Repr

/-- The wording of a reply error. -/
def ReplyError.message : ReplyError → String
  | noDocument => "No JSON found in response"
  | document cause => cause.message
  | noPages => "Missing required key: pages"
  | emptyPages => "Pages must be a non-empty list"
  | notContainer kind => "argument of type '" ++ kind ++ "' is not iterable"
  | textPage => "'str' object does not support item assignment"
  | listPage => "list indices must be integers or slices, not str"

/-- What stands between the first opening and the last closing brace, braces included. -/
def documentIn? (cs : List Char) : Option (List Char) :=
  if cs.contains '\x7b' && cs.contains '\x7d' then
    some (((cs.dropWhile (· != '\x7b')).reverse.dropWhile (· != '\x7d')).reverse)
  else none

/-- The members that every page has. -/
def pageParts : List String := ["visuals", "slicers", "filters"]

/-- The members of a page with an empty list at the end for each part that it lacks. -/
def completeMembers (members : List (String × Value)) : List String → List (String × Value)
  | [] => members
  | part :: rest =>
    if members.any (·.1 == part) then completeMembers members rest
    else completeMembers (members ++ [(part, .array [])]) rest

/-- A page with all its parts. -/
def completePage : Value → Except ReplyError Value
  | .object members => .ok (.object (completeMembers members pageParts))
  | .text s => if pageParts.all (Value.text s).holds then .ok (.text s) else .error .textPage
  | .array items =>
    if pageParts.all (Value.array items).holds then .ok (.array items) else .error .listPage
  | page => .error (.notContainer page.kindWord)

/-- An analysis whose pages are complete. -/
def completeAnalysis (analysis : Value) : Except ReplyError Value :=
  match analysis with
  | .object members =>
    match analysis.member? "pages" with
    | none => .error .noPages
    | some (.array (page :: pages)) => do
      let complete ← (page :: pages).mapM completePage
      return .object (Value.setMember "pages" (.array complete) members)
    | some _ => .error .emptyPages
  | _ => .error .noPages

/-- The analysis in a reply. -/
def readReply (reply : String) : Except ReplyError Value :=
  match documentIn? reply.toList with
  | none => .error .noDocument
  | some cs => match Json.read cs with
    | .error cause => .error (.document cause)
    | .ok analysis => completeAnalysis analysis

end QlikMigration.Vision
