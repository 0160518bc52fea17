import Mustache.Calendar
import Mustache.Number.Binary64

/-!
This module contains points in time: the moments of universal time that they are, and what clocks show.
-/

namespace Mustache

structure Instant where
  seconds : Int
  micros : Nat
  deriving DecidableEq

namespace Instant

def secondsPerDay : Nat := 86400

def microsPerSecond : Nat := 1000000

/--
The instant of a number of seconds. Its fraction is rounded to millionths, a half to the even
neighbour; what is not finite is the beginning.
-/
def ofSeconds (seconds : Binary64) : Instant :=
  match seconds.toRat? with
  | none => ⟨0, 0⟩
  | some q =>
    let whole := q.num.tdiv q.den
    let micros := Binary64.mul (.ofRat (q - whole)) (.ofRat microsPerSecond)
    let magnitude :=
      match micros.toRat? with
      | none => 0
      | some m => Binary64.roundQuotient m.num.natAbs m.den
    let total := whole * microsPerSecond + (if q.num < 0 then -(magnitude : Int) else magnitude)
    ⟨total.fdiv microsPerSecond, (total.fmod microsPerSecond).toNat⟩

def moment (t : Instant) : Moment :=
  let second := (t.seconds.fmod secondsPerDay).toNat
  {
    date := .ofDay (t.seconds.fdiv secondsPerDay)
    hour := second / 3600
    minute := second / 60 % 60
    second := second % 60
    micros := t.micros
    offset := some 0
  }

def fault? (t : Instant) : Option CalendarFault :=
  t.moment.date.fault?

def text (t : Instant) : String :=
  t.moment.textWith "T"

end Instant

/-- An instant, and how many seconds local time is ahead of universal time at each second. -/
structure Time where
  instant : Instant
  zone : Int → Int

namespace Time

def universal (instant : Instant) : Time := ⟨instant, fun _ => 0⟩

def localSeconds (t : Time) (seconds : Int) : Int :=
  seconds + t.zone seconds

def localMoment (t : Time) (seconds : Int) : Moment :=
  Instant.moment ⟨t.localSeconds seconds, t.instant.micros⟩

/-- What keeps an instant from having a clock. It is looked for clocks that were put back since the day before. -/
def clockFault? (t : Time) : Option CalendarFault :=
  let now := t.instant.seconds
  let dayBefore := now - Instant.secondsPerDay
  let transition := t.localSeconds now - t.localSeconds dayBefore - Instant.secondsPerDay
  let fault? (seconds : Int) := (t.localMoment seconds).date.fault?
  (fault? now).or ((fault? dayBefore).or (if transition < 0 then fault? (now + transition) else none))

def clock (t : Time) : String :=
  (t.localMoment t.instant.seconds).clock

end Time

end Mustache
