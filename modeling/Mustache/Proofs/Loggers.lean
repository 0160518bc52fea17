import Mathlib.Data.List.Induction
import Mustache.Log.Logger

/-!
This module contains what the log shows of a sequence of calls. Whatever was called before, the logger that is set up
has the handler and the level of the latest setup alone, and the loggers whose names go on behind it leave everything
to it, also when they answer from memory. So the log is one setup: a record is written to it once, or not at all.
-/

namespace Mustache.Log

variable {top rest name : Text}

abbrev dot : CodePoint := .char '.'

theorem isCovered_iff (name : Text)
    : isCovered name ↔ name = topName ∨ ∃ rest, name = topName ++ dot :: rest ∧ rest.head? ≠ some dot := by
  have hdot : Text.ofString "." = [dot] := rfl
  have hdots : Text.ofString ".." = [dot, dot] := rfl
  unfold isCovered
  rw [Bool.or_eq_true, Bool.and_eq_true, Bool.not_eq_true', decide_eq_true_iff, ← Bool.not_eq_true,
    List.isPrefixOf_iff_prefix, List.isPrefixOf_iff_prefix, hdot, hdots]
  apply or_congr Iff.rfl
  constructor
  . rintro ⟨⟨rest, hname⟩, hsecond⟩
    rw [← hname, List.append_assoc] at hsecond ⊢
    refine ⟨rest, rfl, ?_⟩
    intro hhead
    rw [List.head?_eq_some_iff] at hhead
    rcases hhead with ⟨rest, rfl⟩
    exact hsecond ⟨rest, by simp⟩
  . rintro ⟨rest, hname, hhead⟩
    rw [hname]
    refine ⟨⟨rest, by simp⟩, ?_⟩
    rintro ⟨rest', hrest⟩
    rw [List.append_assoc, List.append_cancel_left_eq] at hrest
    injection hrest with _ hrest
    rw [← hrest] at hhead
    exact hhead rfl

namespace Loggers

theorem lineage_of_ne {c : CodePoint} (isLogger : Text → Bool) (h : c ≠ dot)
    : lineage isLogger (c :: rest) = lineage isLogger rest := by
  rw [lineage.eq_def]
  split
  . contradiction
  . next heq =>
    injection heq with hc _
    contradiction
  . next heq =>
    injection heq with _ hrest
    rw [hrest]

/-- What is between a name above and the end does not matter, unless it makes two dots of the dot behind that name. -/
theorem lineage_append (isLogger : Text → Bool) (htop : isLogger top) (hne : top ≠ [])
    : ∀ rest : Text, rest.getLast? ≠ some dot →
        ∃ names, lineage isLogger (rest ++ dot :: top) = names ++ top :: lineage isLogger top
          ∧ ∀ name ∈ names, ∃ front, name = front ++ dot :: top
  | [], _ => by
    rcases List.exists_cons_of_ne_nil hne with ⟨c, top, rfl⟩
    refine ⟨[], ?_, by simp⟩
    rw [List.nil_append, lineage, if_pos htop]
    rfl
  | [c], hlast => by
    have hc : c ≠ dot := by simpa using hlast
    rw [List.singleton_append, lineage_of_ne isLogger hc]
    exact lineage_append isLogger htop hne [] (by simp)
  | c :: c' :: rest, hlast => by
    rw [List.getLast?_cons_cons] at hlast
    have hshort := lineage_append isLogger htop hne (c' :: rest) hlast
    cases Decidable.em (c = dot) with
    | inr hc =>
      rw [List.cons_append, lineage_of_ne isLogger hc]
      exact hshort
    | inl hc =>
      rw [hc, List.cons_append, List.cons_append, lineage]
      split
      . rcases hshort with ⟨names, hlineage, hnames⟩
        refine ⟨(c' :: rest ++ dot :: top) :: names, ?_, ?_⟩
        . rw [← List.cons_append, hlineage]
          rfl
        . intro name hname
          rw [List.mem_cons] at hname
          rcases hname with rfl | hname
          . exact ⟨c' :: rest, rfl⟩
          . exact hnames name hname
      . apply lineage_append isLogger htop hne rest
        cases rest with
        | nil => simp
        | cons c rest => rwa [List.getLast?_cons_cons] at hlast

variable {loggers : Loggers}

@[simp]
theorem get_change (loggers : Loggers) (name other : Text) (f : Logger → Logger)
    : (loggers.change name f).get other = if other = name then f (loggers.get name) else loggers.get other := by
  unfold change get
  dsimp only
  split <;> rfl

theorem isLogger_change (f : Logger → Logger) (h : loggers.isLogger name) (other : Text)
    : (loggers.change other f).isLogger name := by
  unfold isLogger change at *
  dsimp only
  split
  . rw [Bool.and_eq_true] at h ⊢
    exact ⟨h.1, rfl⟩
  . exact h

theorem ne_rootName_of_isLogger (h : loggers.isLogger name) : name ≠ rootName := by
  unfold isLogger at h
  simpa using (Bool.and_eq_true_iff.mp h).1

theorem isLogger_of_mem_lineage {isLogger : Text → Bool} {reversed : Text}
    (h : reversed ∈ lineage isLogger rest) : isLogger reversed := by
  induction rest using lineage.induct isLogger with
  | case1 => contradiction
  | case2 c rest hlogger ih =>
    rw [lineage, if_pos hlogger, List.mem_cons] at h
    rcases h with rfl | h
    . exact hlogger
    . exact ih h
  | case3 c rest hlogger ih =>
    rw [lineage, if_neg hlogger] at h
    exact ih h
  | case4 c rest hdot ih =>
    rw [lineage] at h
    . exact ih h
    . exact hdot

theorem isLogger_of_mem_above (h : name ∈ loggers.above other) : loggers.isLogger name := by
  unfold above at h
  rw [List.mem_map] at h
  rcases h with ⟨reversed, hreversed, rfl⟩
  have hlogger := isLogger_of_mem_lineage hreversed
  exact hlogger

theorem ne_of_length_lt {other : Text} (h : topName.length < other.length)
    : other ≠ topName ∧ other ≠ rootName := by
  constructor
  . rintro rfl
    exact Nat.lt_irrefl _ h
  . rintro rfl
    contradiction

theorem ne_rootName_of_isCovered (h : isCovered name) : name ≠ rootName := by
  rw [isCovered_iff] at h
  rcases h with rfl | ⟨rest, hname, _⟩
  . decide
  . apply (ne_of_length_lt _).2
    rw [hname, List.length_append, List.length_cons]
    omega

/-- Once the logger that is set up exists, it is above all loggers that are covered, and only the root is above it. -/
theorem chain_of_isCovered (hcovered : isCovered name) (htop : loggers.isLogger topName)
    : ∃ below : List Text,
        loggers.chain name = (below ++ [topName, rootName]).map loggers.get
          ∧ ∀ other ∈ below, other ≠ topName ∧ other ≠ rootName := by
  have hroot := ne_rootName_of_isCovered hcovered
  rw [isCovered_iff] at hcovered
  rcases hcovered with rfl | ⟨rest, hname, hhead⟩
  . exact ⟨[], rfl, by simp⟩
  . have hisLogger : loggers.isLogger topName.reverse.reverse := by simpa using htop
    have hlineage := lineage_append (fun reversed => loggers.isLogger reversed.reverse) hisLogger (by decide)
      rest.reverse (by simpa using hhead)
    rcases hlineage with ⟨names, hlineage, hnames⟩
    have habove : loggers.above name = names.map List.reverse ++ [topName] := by
      unfold above
      rw [hname, List.reverse_append, List.reverse_cons, List.append_assoc, List.singleton_append, hlineage,
        List.map_append]
      rfl
    refine ⟨name :: names.map List.reverse, ?_, ?_⟩
    . unfold chain
      rw [if_neg hroot, habove]
      simp
    . intro other hother
      rw [List.mem_cons, List.mem_map] at hother
      rcases hother with rfl | ⟨reversed, hreversed, rfl⟩
      . apply ne_of_length_lt
        rw [hname, List.length_append, List.length_cons]
        omega
      . rcases hnames reversed hreversed with ⟨front, rfl⟩
        apply ne_of_length_lt
        simp

end Loggers

namespace Logger

variable {below above : List Logger}

theorem thresholdOf_append (h : ∀ logger ∈ below, logger = plain)
    : thresholdOf (below ++ above) = thresholdOf above := by
  induction below with
  | nil => rfl
  | cons logger below ih =>
    rw [List.forall_mem_cons] at h
    rw [h.1, List.cons_append, ← ih h.2]
    rfl

theorem handlersOf_append (h : ∀ logger ∈ below, logger = plain)
    : handlersOf (below ++ above) = handlersOf above := by
  induction below with
  | nil => rfl
  | cons logger below ih =>
    rw [List.forall_mem_cons] at h
    rw [h.1, List.cons_append, ← ih h.2]
    rfl

theorem thresholdOf_map_forget (loggers : List Logger) : thresholdOf (loggers.map forget) = thresholdOf loggers := by
  unfold thresholdOf
  rw [List.map_map]
  rfl

theorem handlersOf_map_forget (loggers : List Logger) : handlersOf (loggers.map forget) = handlersOf loggers := by
  induction loggers with
  | nil => rfl
  | cons logger above ih =>
    rw [List.map_cons, handlersOf, handlersOf, ih]
    rfl

end Logger

/-- A setup, and the stream that it is for. -/
structure Destination extends Setup where
  stream : Stream

namespace Destination

def handler (destination : Destination) : Handler :=
  ⟨destination.stream, destination.mode, destination.colours⟩

def logger (destination : Destination) : Logger :=
  ⟨destination.level, [destination.handler], false, []⟩

end Destination

/-- Whether records of a level are made, while records go to some destination, or nothing is set up. -/
def isEnabled (current : Option Destination) (level : Level) : Bool :=
  match current with
  | none => 0 < level && (.warning : Level) ≤ level
  | some destination => destination.enabled level

/-- What becomes of a record that is made. -/
def emission (console : Stream) (current : Option Destination) (record : Record) : List Effect :=
  match current with
  | none => if .warning ≤ record.level then [.text console (bare record)] else []
  | some destination => [destination.handler.handle record]

namespace Call

def destination? (console : Stream) : Call → Option Destination
  | .setup mode level stream =>
    let stream := stream.getD console
    some { mode, level, colours := stream.terminal, stream }
  | .flags chosen => some { chosen.setup console.terminal with stream := console }
  | _ => none

def record? : Call → Option Record
  | .log time logger level message => some ⟨level, logger, message, time, none, []⟩
  | .structured time logger level message fields => some ⟨level, logger, message, time, none, fields.members⟩
  | _ => none

/-- What a call leads to: its record is lost, or goes to one destination. -/
def effects (console : Stream) (current : Option Destination) (call : Call) : List Effect :=
  match call.record? with
  | none => []
  | some record => if isEnabled current record.level then emission console current record else []

end Call

variable {loggers : Loggers} {console : Stream} {current : Option Destination}

namespace Loggers

/-- What a logger decides if records go to some destination, or nothing is set up. -/
def settled (current : Option Destination) (name : Text) : Logger :=
  if name = topName then (current.map (·.logger)).getD .plain
  else if name = rootName then { Logger.plain with level := .warning }
  else .plain

/-- The loggers leave all records to a destination, or nothing is set up. -/
structure LeaveTo (loggers : Loggers) (current : Option Destination) : Prop where
  isLogger : current.isSome → loggers.isLogger topName
  forget : ∀ name, (loggers.get name).forget = settled current name
  answers : ∀ name, isCovered name → ∀ level answer,
    (loggers.get name).answers.lookup level = some answer → answer = isEnabled current level

theorem LeaveTo.map_forget (h : loggers.LeaveTo current) (names : List Text)
    : (names.map loggers.get).map Logger.forget = names.map (settled current) := by
  rw [List.map_map]
  apply List.map_congr_left
  intro name _
  exact h.forget name

theorem LeaveTo.chain (h : loggers.LeaveTo current) (hcovered : isCovered name)
    : Logger.thresholdOf (loggers.chain name)
          = (current.map (·.threshold)).getD .warning
        ∧ Logger.handlersOf (loggers.chain name) = (current.map (·.handler)).toList := by
  rw [← Logger.thresholdOf_map_forget, ← Logger.handlersOf_map_forget]
  cases current with
  | none =>
    have hroot := ne_rootName_of_isCovered hcovered
    unfold Loggers.chain
    rw [if_neg hroot, h.map_forget, List.map_append]
    have hplain : ∀ logger ∈ (name :: loggers.above name).map (settled none), logger = .plain := by
      intro logger hlogger
      rw [List.mem_map] at hlogger
      rcases hlogger with ⟨other, hother, rfl⟩
      have hne : other ≠ rootName := by
        rw [List.mem_cons] at hother
        rcases hother with rfl | hother
        . exact hroot
        . exact ne_rootName_of_isLogger (isLogger_of_mem_above hother)
      unfold settled
      rw [if_neg hne]
      split <;> rfl
    rw [Logger.thresholdOf_append hplain, Logger.handlersOf_append hplain]
    exact ⟨rfl, rfl⟩
  | some destination =>
    rcases chain_of_isCovered hcovered (h.isLogger rfl) with ⟨below, hchain, hbelow⟩
    rw [hchain, h.map_forget, List.map_append]
    have hplain : ∀ logger ∈ below.map (settled (some destination)), logger = .plain := by
      intro logger hlogger
      rw [List.mem_map] at hlogger
      rcases hlogger with ⟨other, hother, rfl⟩
      unfold settled
      rw [if_neg (hbelow other hother).1, if_neg (hbelow other hother).2]
    rw [Logger.thresholdOf_append hplain, Logger.handlersOf_append hplain]
    refine ⟨?_, rfl⟩
    have hlevels : Logger.thresholdOf ([topName, rootName].map (settled (some destination)))
        = ([destination.level, .warning].find? (· ≠ 0)).getD 0 := rfl
    rw [hlevels, Option.map_some, Option.getD_some, Setup.threshold]
    split
    . next hunset =>
      rw [hunset]
      rfl
    . next hset => rw [List.find?_cons_of_pos (by simpa using hset), Option.getD_some]

theorem LeaveTo.change {f : Logger → Logger} (h : loggers.LeaveTo current) (name : Text)
    (hforget : (f (loggers.get name)).forget = (loggers.get name).forget)
    (hanswers : isCovered name → ∀ level answer,
      (f (loggers.get name)).answers.lookup level = some answer → answer = isEnabled current level)
    : (loggers.change name f).LeaveTo current := by
  constructor
  . exact fun hcurrent => isLogger_change f (h.isLogger hcurrent) name
  . intro other
    rw [get_change, ← h.forget other]
    split
    . next heq => rw [hforget, heq]
    . rfl
  . intro other hcovered level answer hanswer
    rw [get_change] at hanswer
    split at hanswer
    . next heq => exact hanswers (heq ▸ hcovered) level answer hanswer
    . exact h.answers other hcovered level answer hanswer

theorem LeaveTo.named (h : loggers.LeaveTo current) (logger : Text)
    : (loggers.named logger).2.LeaveTo current := by
  unfold Loggers.named
  apply h.change
  . rfl
  . exact h.answers _

theorem LeaveTo.ask (h : loggers.LeaveTo current) (name : Text) (level : Level)
    : (loggers.ask name level).2.LeaveTo current
        ∧ (isCovered name → (loggers.ask name level).1 = isEnabled current level) := by
  have hanswer : isCovered name →
      (0 < level && decide (Logger.thresholdOf (loggers.chain name) ≤ level)) = isEnabled current level := by
    intro hcovered
    rw [(h.chain hcovered).1]
    cases current <;> rfl
  unfold Loggers.ask
  split
  . next answer hkept => exact ⟨h, fun hcovered => h.answers name hcovered level answer hkept⟩
  . refine ⟨?_, hanswer⟩
    dsimp only
    apply h.change
    . rfl
    . intro hcovered other answer hlookup
      rw [List.lookup_cons] at hlookup
      split at hlookup
      . next heq =>
        injection hlookup with hlookup
        rw [← hlookup, eq_of_beq heq]
        exact hanswer hcovered
      . exact h.answers name hcovered other answer hlookup

theorem LeaveTo.handle (h : loggers.LeaveTo current) (console : Stream) {record : Record}
    (hcovered : isCovered record.logger)
    : loggers.handle console record = emission console current record := by
  unfold Loggers.handle
  rw [(h.chain hcovered).2]
  cases current <;> rfl

theorem get_setUp (loggers : Loggers) (stream : Stream) (mode : Mode) (level : Level) (other : Text)
    : (loggers.setUp stream mode level).get other
        =
      if other = topName then
        Destination.logger { mode, level, colours := stream.terminal, stream }
      else
        (loggers.get other).forget := by
  have hlevel : (loggers.setLevel topName level).get other
      = ((loggers.change topName fun logger => { logger with level }).get other).forget := by
    unfold setLevel get
    dsimp only
    cases (loggers.change topName fun logger => { logger with level }).find? other <;> rfl
  unfold setUp
  rw [get_change, get_change, get_change, if_pos rfl]
  split
  . next heq =>
    rw [heq, get_change, if_pos rfl] at hlevel
    rw [hlevel]
    rfl
  . next hne => rw [hlevel, get_change, if_neg hne]

theorem LeaveTo.setUp (h : loggers.LeaveTo current) (stream : Stream) (mode : Mode) (level : Level)
    : (loggers.setUp stream mode level).LeaveTo (some { mode, level, colours := stream.terminal, stream }) := by
  constructor
  . intro _
    unfold Loggers.isLogger Loggers.setUp Loggers.change
    rfl
  . intro other
    rw [get_setUp]
    split
    . next heq =>
      rw [heq]
      rfl
    . next hne =>
      have hother := h.forget other
      unfold settled at hother ⊢
      rw [if_neg hne] at hother ⊢
      rw [← hother]
      rfl
  . intro other _ asked answer hanswer
    rw [get_setUp] at hanswer
    split at hanswer <;> contradiction

/-- Adding no fields to a record that is made by hand is the same as adding them. -/
theorem structured_eq (loggers : Loggers) (console : Stream) (time : Time) (logger : Text) (level : Level)
    (message : Text) (fields : List (Text × Value Text))
    : loggers.structured console time logger level message fields
        =
      let (name, loggers) := loggers.named logger
      match loggers.ask name level with
      | (false, loggers) => (loggers, [])
      | (true, loggers) => (loggers, loggers.handle console ⟨level, name, message, time, none, fields⟩) := by
  unfold structured
  cases fields <;> rfl

theorem structured_nil (loggers : Loggers) (console : Stream) (time : Time) (logger : Text) (level : Level)
    (message : Text)
    : loggers.structured console time logger level message [] = loggers.log console time logger level message := by
  rw [structured_eq]
  rfl

/-- Both ways to make a record come down to this one. -/
theorem LeaveTo.structured (h : loggers.LeaveTo current) (console : Stream) (time : Time) (logger : Text)
    (level : Level) (message : Text) (fields : List (Text × Value Text))
    : (loggers.structured console time logger level message fields).1.LeaveTo current
        ∧ (isCovered logger →
          (loggers.structured console time logger level message fields).2
            =
          if isEnabled current level then
            emission console current ⟨level, logger, message, time, none, fields⟩
          else
            []) := by
  have hasked := (h.named logger).ask (loggers.named logger).1 level
  have hname : isCovered logger → (loggers.named logger).1 = logger := by
    intro hcovered
    unfold Loggers.named
    dsimp only
    split
    . next hempty =>
      rw [hempty] at hcovered
      contradiction
    . rfl
  rw [structured_eq]
  dsimp only
  split
  . next hanswer =>
    rw [hanswer] at hasked
    refine ⟨hasked.1, ?_⟩
    intro hcovered
    rw [hname hcovered] at hasked
    rw [← hasked.2 hcovered]
    rfl
  . next hanswer =>
    rw [hanswer] at hasked
    refine ⟨hasked.1, ?_⟩
    intro hcovered
    rw [hname hcovered] at hasked ⊢
    rw [← hasked.2 hcovered]
    exact hasked.1.handle console hcovered

theorem LeaveTo.perform (h : loggers.LeaveTo current) (console : Stream) (call : Call)
    : (loggers.perform console call).1.LeaveTo ((call.destination? console).or current) := by
  cases call with
  | setup mode level stream => exact h.setUp (stream.getD console) mode level
  | flags flags => exact h.setUp console flags.mode flags.level
  | log time logger level message =>
    have hmade := h.structured console time logger level message []
    rw [structured_nil] at hmade
    exact hmade.1
  | structured time logger level message fields =>
    exact (h.structured console time logger level message fields.members).1

theorem LeaveTo.effects (h : loggers.LeaveTo current) (console : Stream) (call : Call)
    (hcovered : call.record?.all fun record => isCovered record.logger)
    : (loggers.perform console call).2 = call.effects console current := by
  cases call with
  | setup => rfl
  | flags => rfl
  | log time logger level message =>
    have hmade := h.structured console time logger level message []
    rw [structured_nil] at hmade
    exact hmade.2 hcovered
  | structured time logger level message fields =>
    exact (h.structured console time logger level message fields.members).2 hcovered

theorem leaveTo_initial : initial.LeaveTo none := by
  constructor
  . simp
  . intro name
    unfold initial get settled
    dsimp only
    split
    . next hroot =>
      rw [hroot]
      rfl
    . split <;> rfl
  . intro name hcovered level answer hanswer
    unfold initial get at hanswer
    dsimp only at hanswer
    rw [if_neg (ne_rootName_of_isCovered hcovered)] at hanswer
    contradiction

def written (loggers : Loggers) (console : Stream) : List Call → Text
  | [] => []
  | call :: rest =>
    (loggers.perform console call).2.flatMap Effect.written
      ++ (loggers.perform console call).1.written console rest

end Loggers

/-- A call, for a log that is no more than one setup. -/
def Call.action (console : Stream) : Call → Action
  | .setup mode level stream => .setup ⟨mode, level, (stream.getD console).terminal⟩
  | .flags chosen => .setup (chosen.setup console.terminal)
  | .log time logger level message => .record ⟨level, logger, message, time, none, []⟩
  | .structured time logger level message fields => .record ⟨level, logger, message, time, none, fields.members⟩

def written (current : Option Setup) : List Action → Text
  | [] => []
  | action :: rest => (step current action).2 ++ written (step current action).1 rest

/-- A record is added to the log in the same way, whether loggers pass it on or the log is no more than one setup. -/
theorem step_record {record : Record} (hcovered : isCovered record.logger)
    : step (current.map (·.toSetup)) (.record record)
        =
      (current.map (·.toSetup),
        (if isEnabled current record.level then emission console current record else []).flatMap
          Effect.written) := by
  cases current with
  | none =>
    unfold isEnabled emission
    dsimp only
    rw [Option.map_none, step, Prod.mk.injEq]
    refine ⟨rfl, ?_⟩
    cases Decidable.em (.warning ≤ record.level) with
    | inl hle =>
      have hpositive : 0 < record.level := Int.lt_of_lt_of_le (by decide) hle
      rw [decide_eq_true hle, decide_eq_true hpositive, Bool.and_self, if_pos rfl, if_pos hle,
        List.flatMap_singleton]
      rfl
    | inr hlt =>
      rw [decide_eq_false hlt, Bool.and_false, if_neg Bool.false_ne_true, bare, if_neg hlt]
      rfl
  | some destination =>
    unfold isEnabled emission
    dsimp only
    rw [Option.map_some, step, if_pos hcovered, Setup.write, Prod.mk.injEq]
    refine ⟨rfl, ?_⟩
    split
    . rw [List.flatMap_singleton, Handler.handle, Destination.handler]
      dsimp only
      cases record.text? destination.mode destination.colours <;> rfl
    . rfl

namespace Loggers

theorem LeaveTo.step_action (h : loggers.LeaveTo current) (console : Stream) (call : Call)
    (hcovered : call.record?.all fun record => isCovered record.logger)
    : step (current.map (·.toSetup)) (call.action console)
        =
      (((call.destination? console).or current).map (·.toSetup),
        (loggers.perform console call).2.flatMap Effect.written) := by
  rw [h.effects console call hcovered]
  cases call with
  | setup => rfl
  | flags => rfl
  | log => exact step_record hcovered
  | structured => exact step_record hcovered

theorem LeaveTo.written (h : loggers.LeaveTo current) (console : Stream) (calls : List Call)
    (hcovered : ∀ call ∈ calls, call.record?.all fun record => isCovered record.logger)
    : loggers.written console calls = Log.written (current.map (·.toSetup)) (calls.map (·.action console)) := by
  induction calls generalizing loggers current with
  | nil => rfl
  | cons call rest ih =>
    rw [List.forall_mem_cons] at hcovered
    rw [List.map_cons, Loggers.written, Log.written, h.step_action console call hcovered.1,
      ih (h.perform console call) hcovered.2]

def latest? (console : Stream) (calls : List Call) : Option Destination :=
  (calls.filterMap fun call => call.destination? console).getLast?

theorem latest?_append (console : Stream) (calls calls' : List Call)
    : latest? console (calls ++ calls') = (latest? console calls').or (latest? console calls) := by
  unfold latest?
  rw [List.filterMap_append, List.getLast?_append]

theorem latest?_singleton (console : Stream) (call : Call)
    : latest? console [call] = call.destination? console := by
  unfold latest?
  cases hdestination : call.destination? console <;> simp [hdestination]

theorem leaveTo_performAll (console : Stream) (calls : List Call)
    : (initial.performAll console calls).LeaveTo (latest? console calls) := by
  induction calls using List.reverseRecOn with
  | nil => exact leaveTo_initial
  | append_singleton calls call ih =>
    rw [latest?_append, latest?_singleton]
    unfold performAll at ih ⊢
    rw [List.foldl_append]
    exact ih.perform console call

end Loggers

namespace Call

def level : Call → Level
  | .setup _ level _ => level
  | .flags chosen => chosen.level
  | .log _ _ level _ => level
  | .structured _ _ level _ _ => level

theorem level_of_destination? {console : Stream} {call : Call} {destination : Destination}
    (h : call.destination? console = some destination) : destination.level = call.level := by
  cases call with
  | setup =>
    injection h with h
    rw [← h]
    rfl
  | flags =>
    injection h with h
    rw [← h]
    rfl
  | log => contradiction
  | structured => contradiction

theorem destination?_of_record? {call : Call} {record : Record} (console : Stream) (h : call.record? = some record)
    : call.destination? console = none := by
  cases call with
  | setup => contradiction
  | flags => contradiction
  | log => rfl
  | structured => rfl

theorem level_of_record? {call : Call} {record : Record} (h : call.record? = some record)
    : record.level = call.level := by
  cases call with
  | setup => contradiction
  | flags => contradiction
  | log =>
    injection h with h
    rw [← h]
    rfl
  | structured =>
    injection h with h
    rw [← h]
    rfl

end Call

/-- Calls that begin with a setup. All levels are positive, and all loggers are covered by the setup. -/
structure IsSession (console : Stream) (calls : List Call) : Prop where
  begins : ∃ first rest, calls = first :: rest ∧ (first.destination? console).isSome
  positive : ∀ call ∈ calls, 0 < call.level
  covered : ∀ call ∈ calls, call.record?.all fun record => isCovered record.logger

variable {calls : List Call}

theorem IsSession.latest? (h : IsSession console calls)
    : ∃ destination, Loggers.latest? console calls = some destination ∧ 0 < destination.level := by
  rcases h.begins with ⟨first, rest, rfl, hfirst⟩
  rw [Option.isSome_iff_exists] at hfirst
  rcases hfirst with ⟨destination, hfirst⟩
  unfold Loggers.latest?
  rw [List.filterMap_cons, hfirst]
  dsimp only
  cases hlast : (destination :: rest.filterMap fun call => call.destination? console).getLast? with
  | none => simp at hlast
  | some last =>
    have hmem := List.mem_of_getLast? hlast
    rw [← List.filterMap_cons_some hfirst, List.mem_filterMap] at hmem
    rcases hmem with ⟨call, hcall, hdestination⟩
    refine ⟨last, rfl, ?_⟩
    rw [Call.level_of_destination? hdestination]
    exact h.positive call hcall

theorem isEnabled_of_pos {destination : Destination} {level : Level} (h : 0 < destination.level) (hlevel : 0 < level)
    : isEnabled (some destination) level = decide (destination.level ≤ level) := by
  have hset : destination.level ≠ 0 := Int.ne_of_gt h
  unfold isEnabled Setup.enabled Setup.threshold
  dsimp only
  rw [if_neg hset, decide_eq_true hlevel, Bool.true_and]

/--
Whatever was called earlier, after each call of a session the logger that is set up has one handler, and the level of
the latest setup. A setup writes nothing. A record is written once, to the stream of the latest setup and in its form,
if its level is at least that of the setup, and nothing is written otherwise; one without a text is reported instead.
A record without fields is treated alike, whether it is made by hand or not.
-/
theorem session_writes_once (console : Stream) (earlier before : List Call) (call : Call)
    (h : IsSession console (before ++ [call]))
    : let loggers := Loggers.initial.performAll console (earlier ++ before)
      let after := (loggers.perform console call).1
      let effects := (loggers.perform console call).2
      (∃ current,
          Loggers.latest? console (before ++ [call]) = some current
            ∧ (after.get topName).handlers = [⟨current.stream, current.mode, current.colours⟩]
            ∧ (after.get topName).level = current.level
            ∧ effects
                =
              match call.record? with
              | none => []
              | some record =>
                if current.level ≤ record.level then
                  match record.text? current.mode current.colours with
                  | .ok text => [.text current.stream (text ++ Text.ofString "\n")]
                  | .error fault => [.report fault]
                else
                  [])
        ∧ ∀ time logger level message,
          call = .structured time logger level message .none →
            loggers.perform console call = loggers.perform console (.log time logger level message) := by
  intro loggers after effects
  have hcall : call ∈ before ++ [call] := by simp
  have hloggers : loggers.LeaveTo (Loggers.latest? console (earlier ++ before)) :=
    Loggers.leaveTo_performAll console (earlier ++ before)
  rcases h.latest? with ⟨current, hlatest, hcurrent⟩
  have hall : (call.destination? console).or (Loggers.latest? console (earlier ++ before)) = some current := by
    rw [← Loggers.latest?_singleton, ← Loggers.latest?_append, List.append_assoc, Loggers.latest?_append, hlatest]
    rfl
  have hafter := hloggers.perform console call
  rw [hall] at hafter
  have htop := hafter.forget topName
  refine ⟨⟨current, hlatest, ?_, ?_, ?_⟩, ?_⟩
  . exact congrArg Logger.handlers htop
  . exact congrArg Logger.level htop
  . have heffects := hloggers.effects console call (h.covered call hcall)
    have heffects : effects = call.effects console (Loggers.latest? console (earlier ++ before)) := heffects
    rw [heffects, Call.effects]
    cases hrecord : call.record? with
    | none => rfl
    | some record =>
      rw [Call.destination?_of_record? console hrecord, Option.none_or] at hall
      have hpositive := h.positive call hcall
      rw [← Call.level_of_record? hrecord] at hpositive
      rw [hall]
      dsimp only
      rw [isEnabled_of_pos hcurrent hpositive, emission, Handler.handle, Destination.handler]
      dsimp only
      cases Decidable.em (current.level ≤ record.level) with
      | inl hle =>
        rw [if_pos hle, if_pos (decide_eq_true hle)]
        cases record.text? current.mode current.colours <;> rfl
      | inr hlt => rw [if_neg hlt, decide_eq_false hlt, if_neg Bool.false_ne_true]
  . intro time logger level message hplain
    rw [hplain]
    exact Loggers.structured_nil loggers console time logger level message

/-- The second setup leaves nothing of the first one, also for a logger that had an answer of it in memory. -/
theorem session_writes_once_second_setup
    : let console : Stream := ⟨"console", true⟩
      let file : Stream := ⟨"file", false⟩
      let time := Time.universal ⟨1700000000, 0⟩
      let earlier : List Call := [.log time "stache..x" .info "a", .setup .json .error none]
      let before : List Call := [
        .flags ⟨true, false, false⟩,
        .log time "stache.a..b" .debug "b",
        .setup .human .warning (some file)]
      let call : Call := .structured time "stache.a..b" .warning "c" ⟨[("size", .int 3)], by decide⟩
      let loggers := Loggers.initial.performAll console (earlier ++ before)
      IsSession console (before ++ [call])
        ∧ (loggers.perform console call).2 = [.text file "[WARNING] c\n"] := by
  intro console file time earlier before call loggers
  have hsession : IsSession console (before ++ [call]) := by
    constructor
    . exact ⟨_, _, rfl, rfl⟩
    . decide
    . decide
  rcases (session_writes_once console earlier before call hsession).1 with ⟨current, hlatest, _, _, heffects⟩
  have hsecond : Loggers.latest? console (before ++ [call]) = some ⟨⟨.human, .warning, false⟩, file⟩ := rfl
  rw [hlatest, Option.some.injEq] at hsecond
  refine ⟨hsession, ?_⟩
  rw [heffects, hsecond]
  decide +kernel

/--
A name that goes on with two dots is not that of a logger below the one that is set up: its record is lost, though its
level is that of the setup. A record with a number of too many digits has no JSON form, and is not written either.
-/
theorem not_written_second_dot
    : let console : Stream := ⟨"console", false⟩
      let time := Time.universal ⟨1700000000, 0⟩
      let lost : Call := .log time "stache..x" .info "m"
      let human := Loggers.initial.performAll console [.setup .human .info none]
      let json := Loggers.initial.performAll console [.setup .json .info none]
      let number : Value Text := .int (Nat.pow 10 Digits.limit)
      let fields : Fields := ⟨[("size", number)], by simp +decide⟩
      (human.get topName).level ≤ .info
        ∧ (human.perform console lost).2 ≠ [.text console "[INFO] m\n"]
        ∧ (human.perform console lost).2 = []
        ∧ (json.perform console (.structured time topName .info "m" fields)).2
          = [.report (.json .longInteger)] := by
  decide +kernel

end Mustache.Log
