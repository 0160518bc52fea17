import Mustache.Command.Outcome
import Mustache.Lint

/-!
This module contains the command that reports what is wrong in a template.
-/

namespace Mustache

def Lint.Issue.toJson (issue : Issue) : Json :=
  .object [
    ("kind", .text issue.problem.code),
    ("message", .text issue.problem.message),
    ("offset", .int issue.offset),
    ("line", .int issue.line)]

def Lint.Issue.text (issue : Issue) : String :=
  "   • line " ++ toString issue.line ++ ": " ++ issue.problem.message ++ " [" ++
    issue.problem.code ++ "]\n"

namespace Command.ValidateOptions

def report (options : ValidateOptions) (issues : List Lint.Issue) : String :=
  let path := options.template.text
  if options.json then
    String.ofList (Json.block 0 (.array (issues.map Lint.Issue.toJson))) ++ "\n"
  else if issues = [] then
    "✅ Template is valid: " ++ path ++ "\n"
  else
    "❌ " ++ toString issues.length ++ " issue(s) in " ++ path ++ "\n" ++
      String.join (issues.map Lint.Issue.text)

def perform (options : ValidateOptions) (w : Workspace) : Outcome :=
  let announcement := info ("Validating template: " ++ options.template.text)
  let outcome : Outcome :=
    match w.read options.template with
    | .error error => .ended w (.fault (.file error))
    | .ok template =>
      let issues := Lint.check template
      let ending : Ending := if issues = [] then .success else .failure
      .printed w (Utf8.encode (options.report issues)) ending
  outcome.after [announcement]

end Command.ValidateOptions

end Mustache
