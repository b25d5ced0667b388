import Rsyslog.Lib.Decimal
import Rsyslog.Lib.Feed

/-!
# The rate limiter

`withinRatelimit` of `ratelimit.c`: at most `burst` messages are let through in a window of
`interval` seconds. `begin` is the start of the window, and `0` says that none has been noted yet. A
call that finds the window over clears `begin` and the counter `done`, and is counted as the first
of the next window. It does not set `begin`: the call after it does.
-/

namespace Rsyslog.Ratelimit

open Lib

/-- The fields of `ratelimit_t` that limiting by rate uses. -/
structure Ratelimiter where
  name : Bytes
  interval : UInt32
  burst : UInt32
  done : UInt32
  missed : UInt32
  begin : ℤ
  bNoTimeCache : Bool
  deriving DecidableEq

/-- A call: the arguments, and what `time(NULL)` returns meanwhile. -/
structure Call where
  tt : ℤ
  now : ℤ
  appname : Bytes
  deriving DecidableEq

def ratelimitSetLinuxLike (rl : Ratelimiter) (interval burst : UInt32) : Ratelimiter :=
  { rl with interval := interval, burst := burst, done := 0, missed := 0, begin := 0 }

def msgbuf (text : Bytes) : Bytes := text.take 1023

def tellLostCnt (rl : Ratelimiter) : Ratelimiter × List Bytes :=
  if rl.missed ≠ 0 then
    ({ rl with missed := 0 },
      [msgbuf (rl.name ++ ascii ": " ++ decimal rl.missed.toNat ++
        ascii " messages lost due to rate-limiting (" ++ decimal rl.burst.toNat ++
        ascii " allowed within " ++ decimal rl.interval.toNat ++ ascii " seconds)")])
  else (rl, [])

def Ratelimiter.timeOf (rl : Ratelimiter) (c : Call) : ℤ := if rl.bNoTimeCache then c.now else c.tt

def Ratelimiter.beginAt (rl : Ratelimiter) (tt : ℤ) : ℤ := if rl.begin = 0 then tt else rl.begin

def withinRatelimit (rl : Ratelimiter) (c : Call) : Ratelimiter × Bool × List Bytes :=
  if rl.interval = 0 then (rl, true, [])
  else
    let tt := rl.timeOf c
    let rl := { rl with begin := rl.beginAt tt }
    -- resume if we go out of time window or if time has gone backwards
    let (rl, told) :=
      if tt > rl.begin + rl.interval.toNat ∨ tt < rl.begin then
        tellLostCnt { rl with begin := 0, done := 0 }
      else (rl, [])
    if rl.burst > rl.done then ({ rl with done := rl.done + 1 }, true, told)
    else
      let rl := { rl with missed := rl.missed + 1 }
      let dropping := if rl.missed = 1 then
          [msgbuf (rl.name ++ ascii " from <" ++ c.appname ++
            ascii ">: begin to drop messages due to rate-limiting")]
        else []
      (rl, false, told ++ dropping)

def answer (rl : Ratelimiter) (c : Call) : Ratelimiter × List (ℤ × Bool) :=
  let r := withinRatelimit rl c
  (r.1, [(rl.timeOf c, r.2.1)])

def acceptedSince (start : ℤ) (answers : List (ℤ × Bool)) : ℕ :=
  answers.countP fun a => a.2 && decide (start ≤ a.1)

end Rsyslog.Ratelimit
