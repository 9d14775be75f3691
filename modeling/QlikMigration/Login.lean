import QlikMigration.Json.Access
import QlikMigration.Json.Display
import QlikMigration.Outside

/-!
# Logging in

The user logs in at the login service, which answers with a document. If it has
an access token, the token is shown with the next steps; otherwise the reason
is. An answer of another shape, and a login that is refused, are reported in the
same way; only a service that cannot be opened is a failure.
-/

namespace QlikMigration.Login

open Json (Value)
open Effect (printLine ask outcome)

/-- The client that the program logs in as. -/
def clientId : String := "ea0616ba-638b-4df5-95b9-636659ae5121"

/-- The authority that it logs in at. -/
def authority : String := "https://login.microsoftonline.com/organizations"

/-- What the token is for. -/
def scopes : List String := ["https://analysis.windows.net/powerbi/api/.default"]

/-- Why a login service could not be opened. -/
structure Refused where
  text : String
  deriving DecidableEq, Repr

/-- A line of sixty equal characters. -/
def rule (c : Char) : String := String.ofList (List.replicate 60 c)

/-- Prints some lines. -/
def printLines (lines : List String) : Effect ε Unit :=
  lines.forM printLine

/-- The lines that greet the user. -/
def greeting : List String := [
  rule '=',
  "Power BI Access Token Generator",
  rule '=',
  "\nThis will open a browser window for you to sign in.",
  "Please sign in with your Power BI account.\n"]

/-- The lines that show a token. -/
def tokenLines (token : String) : List String := [
  "\n" ++ rule '=',
  "✅ SUCCESS! Access token obtained",
  rule '=',
  "\nYour access token:",
  rule '-',
  token,
  rule '-',
  "\n📋 Next steps:",
  "1. Copy the token above",
  "2. Run this command in PowerShell:",
  "\n   $env:POWERBI_ACCESS_TOKEN = \"" ++ token ++ "\"\n",
  "3. Restart the application",
  "\n⚠️  Note: Token expires in 1 hour\n"]

/-- Shows what a login gave, and gives back the token. It fails with the text of what is
wrong with the answer. -/
def report (answer : Value) : Effect String Value := do
  match answer with
  | .null | .bool _ | .int _ | .real _ =>
    throw ("argument of type '" ++ answer.kindWord ++ "' is not iterable")
  | .object _ =>
    match answer.member? "access_token" with
    | some token =>
      printLines (tokenLines token.display)
      return token
    | none =>
      printLine "\n❌ Authentication failed:"
      printLine ((answer.member? "error_description").getD (.text "Unknown error")).display
      return .null
  | .text _ | .array _ =>
    if answer.holds "access_token" then
      throw (if answer.kindWord == "str" then "string indices must be integers, not 'str'"
        else "list indices must be integers or slices, not str")
    else
      printLine "\n❌ Authentication failed:"
      throw ("'" ++ answer.kindWord ++ "' object has no attribute 'get'")

/-- Lets the user log in and shows the outcome. -/
def attempt (services : Services) : Effect String Value := do
  ask services id (.acquireToken scopes)
  report services.login

/-- Logs in and gives back the token, or null. -/
def run (services : Services) : Effect Refused Value := do
  printLines greeting
  ask services Refused.mk (.openLogin clientId authority)
  match ← outcome (attempt services) with
  | .ok token => return token
  | .error text =>
    printLine ("\n❌ Error: " ++ text)
    return .null

end QlikMigration.Login
