import Mustache.Log.Record

/-!
This module contains the setup of the log: what is written, and in which form.
-/

namespace Mustache.Log

structure Setup where
  mode : Mode
  level : Level
  colours : Bool
  deriving DecidableEq

structure Flags where
  verbose : Bool
  quiet : Bool
  ci : Bool
  deriving DecidableEq

namespace Flags

def mode (flags : Flags) : Mode :=
  if flags.ci then .json else if flags.verbose then .verbose else .human

def level (flags : Flags) : Level :=
  if flags.quiet then .warning else if flags.verbose then .debug else .info

def setup (flags : Flags) (terminal : Bool) : Setup :=
  ⟨flags.mode, flags.level, terminal⟩

end Flags

namespace Setup

def standard (terminal : Bool) : Setup :=
  ⟨.human, .info, terminal⟩

/-- The level of a setup that names none is that of the loggers above. -/
def threshold (setup : Setup) : Level :=
  if setup.level = 0 then .warning else setup.level

def enabled (setup : Setup) (level : Level) : Bool :=
  0 < level && setup.threshold ≤ level

def write (setup : Setup) (record : Record) : Text :=
  if setup.enabled record.level then
    match record.text? setup.mode setup.colours with
    | .ok text => text ++ Text.ofString "\n"
    | .error _ => []
  else
    []

end Setup

inductive Action where
  | setup (setup : Setup)
  | record (record : Record)

def topName : Text := "stache"

/--
Whether a setup is about a logger: the one that is set up, and those whose names go on with a dot. Of two dots side by
side neither counts.
-/
def isCovered (logger : Text) : Bool :=
  logger = topName ||
    (topName ++ Text.ofString ".").isPrefixOf logger && !(topName ++ Text.ofString "..").isPrefixOf logger

def bare (record : Record) : Text :=
  if .warning ≤ record.level then record.message ++ record.exceptionText ++ Text.ofString "\n" else []

def step (current : Option Setup) : Action → Option Setup × Text
  | .setup setup => (some setup, [])
  | .record record =>
    match current with
    | none => (none, bare record)
    | some setup =>
      (some setup, if isCovered record.logger then setup.write record else bare record)

end Mustache.Log
