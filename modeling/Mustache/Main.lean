import Std.Time.Zoned
import Mustache.Command.Needs

/-!
This module contains the program: it looks up what a command line needs to know, runs it, prints what
it says and writes the files that it has changed.
-/

namespace Mustache.Program

open Command

def look (path : String) : IO (Option Node) := do
  match ← (IO.FS.readBinFile path).toBaseIO with
  | .ok content => return some (.file content.toList)
  | .error _ =>
    match ← (IO.FS.realPath (path ++ "/.")).toBaseIO with
    | .ok _ => return some .directory
    | .error _ => return none

def explore (w : Workspace) (path : Path) : IO Workspace :=
  (List.range (path.parts.length + 1)).foldlM (fun w length => do
    let path := (Path.mk path.anchor (path.parts.take length)).text
    match w.locate path with
    | .error _ => return w
    | .ok place =>
      match w.node? place, ← look path with
      | none, some node => return w.put place node
      | _, _ => return w) w

partial def learn (args : List String) (seen : Needs) (w : Workspace) (vars : Variables) :
    IO (Workspace × Variables) := do
  let needs := Command.needs w vars args
  let paths := needs.paths.filter (· ∉ seen.paths)
  let names := needs.names.filter (· ∉ seen.names)
  if paths.isEmpty && names.isEmpty then
    return (w, vars)
  let w ← paths.foldlM explore w
  let vars ← names.foldlM (fun vars name => do
    let value ← IO.getEnv (Utf8.decode name)
    return (value.map fun value => (name, Utf8.encode value)).toList ++ vars) vars
  learn args (seen.and ⟨paths, names⟩) w vars

def store (place : Location) (node : Node) : IO Unit :=
  let path := "/" ++ String.intercalate "/" place
  match node with
  | .directory => IO.FS.createDir path
  | .file content => IO.FS.writeBinFile path content.toByteArray

def storeChanges (before after : Workspace) : IO Unit :=
  after.nodes.reverse.forM fun (place, node) => do
    if before.nodes.lookup place ≠ some node then
      store place node

def now : IO Time := do
  let nanoseconds := (← Std.Time.Timestamp.now).toNanosecondsSinceUnixEpoch.val
  let rules? ← (Std.Time.Database.defaultGetLocalZoneRules).toBaseIO
  let zone (seconds : Int) : Int :=
    match rules? with
    | .ok rules => (rules.timezoneAt (.ofSecondsSinceUnixEpoch ⟨seconds⟩)).offset.second.val
    | .error _ => 0
  return ⟨⟨nanoseconds.fdiv 1000000000, (nanoseconds.fmod 1000000000 / 1000).toNat⟩, zone⟩

def report (ending : Ending) : IO Unit :=
  match ending with
  | .usage => IO.eprint Command.usage
  | .fault fault => IO.eprintln ("Error: " ++ fault.message.printed)
  | _ => return ()

end Mustache.Program

open Mustache Program in
def main (args : List String) : IO UInt32 := do
  let home := (Path.ofText (← IO.currentDir).toString).parts
  let (w, vars) ← learn args .nothing ⟨home, [], []⟩ []
  let terminal ← (← IO.getStderr).isTty
  let result := Command.run .own w vars (← now) terminal args
  storeChanges w result.workspace
  IO.eprint result.log.printed
  let out ← IO.getStdout
  out.write result.output.toByteArray
  out.flush
  report result.ending
  return result.ending.code.toUInt32
