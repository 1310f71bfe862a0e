import Mathlib.Tactic.Tauto
import RethinkDB.Ast.Term
import RethinkDB.Lib.Calendar
import RethinkDB.Lib.Double
import RethinkDB.Lib.Prog
import RethinkDB.Lib.Str

/-! TIME objects as datetimes and back, after `rethinkdb/ast.py`. Times are in microseconds since
1970. -/
namespace RethinkDB.Ast
open RethinkDB.Lib Str Calendar

/-- The first is the `ReqlDriverError` "pseudo-type TIME object {obj} does not have expected field
"epoch_time".", the rest are Python's; `range` is an `OverflowError`, or the `ValueError` or
`OSError` of a time no datetime has. -/
inductive TimeExn where
  | missingEpochTime (obj : List (String × Value))
  | attribute | value | type | range
  deriving Repr

/-- `delta` is in minutes. -/
structure RqlTzinfo where
  offsetstr : String
  delta : ℤ
  deriving Repr, DecidableEq

/-- `RqlTzinfo.__init__`. A timedelta has at most 999999999 days. -/
def RqlTzinfo.init (offsetstr : String) : Except TimeExn RqlTzinfo :=
  match offsetstr.toList.splitOn ':' with
  | [hours, minutes] => match toInt hours, toInt minutes with
    | some hours, some minutes =>
      let delta := hours * 60 + minutes
      if -999999999 ≤ delta / 1440 ∧ delta / 1440 ≤ 999999999 then .ok ⟨offsetstr, delta⟩
      else .error .range
    | _, _ => .error .value
  | _ => .error .value

def microsPerMinute : ℤ := 60000000

def microsPerDay : ℤ := 86400000000

/-- From the year 1 to the year 9999. -/
def InRange (wall : ℤ) : Prop := -62135596800000000 ≤ wall ∧ wall ≤ 253402300799999999

instance (wall : ℤ) : Decidable (InRange wall) := inferInstanceAs (Decidable (_ ∧ _))

/-- What `utcoffset` may return. -/
def RqlTzinfo.WithinDay (tz : RqlTzinfo) : Prop := -1440 < tz.delta ∧ tz.delta < 1440

instance (tz : RqlTzinfo) : Decidable tz.WithinDay := inferInstanceAs (Decidable (_ ∧ _))

/-- `wall` is what its clock shows. -/
structure Datetime where
  wall : ℤ
  tzinfo : Option RqlTzinfo
  hwall : InRange wall
  htzinfo : ∀ tz ∈ tzinfo, tz.WithinDay

namespace Datetime

def instant (dt : Datetime) : ℤ :=
  dt.wall - (dt.tzinfo.elim 0 RqlTzinfo.delta) * microsPerMinute

/-- A `timestamp` rounded to microseconds. -/
def micros : Value → Except TimeExn ℤ
  | .scalar (.int n) => .ok (n * 1000000)
  | .scalar (.bool b) => .ok (if b then 1000000 else 0)
  | .scalar (.float (.finite x)) => .ok (nearestEven (x * 1000000))
  | .scalar (.float .nan) => .error .value
  | .scalar (.float (.infinity _)) => .error .range
  | _ => .error .type

def utcfromtimestamp (timestamp : Value) : Except TimeExn Datetime := do
  let wall ← micros timestamp
  if hwall : InRange wall then return ⟨wall, none, hwall, by simp⟩ else .error .range

/-- `fromtimestamp(timestamp, tz)`, which ends in `tz.fromutc`. -/
def fromtimestamp (timestamp : Value) (tz : RqlTzinfo) : Except TimeExn Datetime := do
  let utc ← utcfromtimestamp timestamp
  if htz : tz.WithinDay then
    let wall := utc.wall + tz.delta * microsPerMinute
    if hwall : InRange wall then return ⟨wall, some tz, hwall, by simpa using htz⟩ else .error .range
  else .error .value

def formatOffset (offset : ℤ) : List Char :=
  (if offset < 0 then '-' else '+') :: pad 2 (offset.natAbs / 60) ++ ':' :: pad 2 (offset.natAbs % 60)

/-- 719163 is the first day of 1970. -/
def date (dt : Datetime) : Date := ofOrdinal (719163 + dt.wall / microsPerDay).toNat

/-- Microseconds since midnight. -/
def time (dt : Datetime) : ℕ := (dt.wall % microsPerDay).toNat

def isoformat (dt : Datetime) : List Char :=
  pad 4 dt.date.year ++ '-' :: pad 2 dt.date.month ++ '-' :: pad 2 dt.date.day ++
    'T' :: pad 2 (dt.time / 3600000000) ++ ':' :: pad 2 (dt.time / 60000000 % 60) ++
    ':' :: pad 2 (dt.time / 1000000 % 60) ++
    (if dt.time % 1000000 = 0 then [] else '.' :: pad 6 (dt.time % 1000000)) ++
    dt.tzinfo.elim [] fun tz => formatOffset tz.delta

end Datetime

/-- `ReQLDecoder.convert_time`. -/
def convertTime (obj : List (String × Value)) : Except TimeExn Datetime :=
  match obj.lookup "epoch_time" with
  | none => .error (.missingEpochTime obj)
  | some epochTime => match obj.lookup "timezone" with
    | none => Datetime.utcfromtimestamp epochTime
    | some (.scalar (.str timezone)) => do
      let tz ← RqlTzinfo.init timezone
      Datetime.fromtimestamp epochTime tz
    | some _ => .error .attribute

structure ISO8601 where
  args : List Term
  deriving Repr

/-- The branch of `expr` for datetimes. -/
def exprDatetime (val : Datetime) (nestingDepth : ℤ) : Except AstExn ISO8601 :=
  if nestingDepth ≤ 0 then .error (.compile "Nesting depth limit exceeded.")
  else match val.tzinfo with
    | none => .error (.compile ("Cannot convert datetime to ReQL time object\n            " ++
        "without timezone information. You can add timezone information with\n            " ++
        "the third party module \"pytz\" or by constructing ReQL compatible\n            " ++
        "timezone values with r.make_timezone(\"[+-]HH:MM\"). Alternatively,\n            " ++
        "use one of ReQL's bultin time constructors, r.now, r.time,\n            " ++
        "or r.iso8601.\n            "))
    | some _ => do
      let arg ← expr (.scalar (.str (.ofList val.isoformat))) 20
      return ⟨[arg]⟩

/-! ### What an ISO 8601 text denotes -/

def readFraction : List Char → Option (ℕ × List Char)
  | '.' :: cs => field 6 cs
  | cs => some (0, cs)

/-- A UTC offset, in minutes. -/
def readOffset : List Char → Option ℤ
  | [] => none
  | sign :: cs => do
    let (hours, cs) ← field 2 cs
    let (minutes, cs) ← field 2 (← skip ':' cs)
    if cs ≠ [] then none
    else if sign = '+' then return hours * 60 + minutes
    else if sign = '-' then return -(hours * 60 + minutes)
    else none

def readIso8601 (text : List Char) : Option (ℤ × List Char) := do
  let (year, cs) ← field 4 text
  let (month, cs) ← field 2 (← skip '-' cs)
  let (day, cs) ← field 2 (← skip '-' cs)
  let (hour, cs) ← field 2 (← skip 'T' cs)
  let (minute, cs) ← field 2 (← skip ':' cs)
  let (second, cs) ← field 2 (← skip ':' cs)
  let (micro, timezone) ← readFraction cs
  let offset ← readOffset timezone
  let days : ℤ := (Date.mk year month day).toOrdinal - 719163
  return ((((days * 24 + hour) * 60 + minute - offset) * 60 + second) * 1000000 + micro, timezone)

theorem readOffset_formatOffset {offset : ℤ} (h : -1440 < offset ∧ offset < 1440) :
    readOffset (Datetime.formatOffset offset) = some offset := by
  have hhours : field 2 (pad 2 (offset.natAbs / 60) ++ ':' :: pad 2 (offset.natAbs % 60)) =
      some (offset.natAbs / 60, ':' :: pad 2 (offset.natAbs % 60)) := field_pad (by omega) _
  have hminutes : field 2 (pad 2 (offset.natAbs % 60)) = some (offset.natAbs % 60, []) :=
    field_pad_end (by omega)
  unfold readOffset Datetime.formatOffset
  by_cases hneg : offset < 0
  · simp [hneg, hhours, hminutes, abs_of_neg hneg]
    omega
  · simp [hneg, hhours, hminutes, abs_of_nonneg (not_lt.mp hneg)]
    omega

theorem readFraction_append {micro : ℕ} (hmicro : micro < 1000000) (offset : ℤ) :
    readFraction ((if micro = 0 then [] else '.' :: pad 6 micro) ++ Datetime.formatOffset offset) =
      some (micro, Datetime.formatOffset offset) := by
  by_cases hzero : micro = 0
  · unfold Datetime.formatOffset
    by_cases hneg : offset < 0
    · simp [hzero, hneg, readFraction]
    · simp [hzero, hneg, readFraction]
  · simp only [hzero, if_false, List.cons_append, readFraction]
    exact field_pad hmicro _

/-- What a datetime prints denotes it. -/
theorem readIso8601_isoformat {dt : Datetime} {tz : RqlTzinfo} (htz : dt.tzinfo = some tz) :
    readIso8601 dt.isoformat = some (dt.instant, Datetime.formatOffset tz.delta) := by
  have hrange := dt.hwall
  have hwithin : tz.WithinDay := dt.htzinfo tz (by simp [htz])
  unfold InRange at hrange
  have hordinal : dt.date.toOrdinal = (719163 + dt.wall / microsPerDay).toNat :=
    toOrdinal_ofOrdinal (by unfold microsPerDay; omega)
  have hyear : dt.date.year < 10 ^ 4 := by
    apply Nat.lt_succ_of_le
    apply ofOrdinal_year_le
    unfold microsPerDay
    omega
  have hmonth : dt.date.month < 10 ^ 2 := (ofOrdinal_month_le _).trans_lt (by omega)
  have hday : dt.date.day < 10 ^ 2 := (ofOrdinal_day_le _).trans_lt (by omega)
  have htime : dt.time < 86400000000 := by unfold Datetime.time microsPerDay; omega
  have hhour : dt.time / 3600000000 < 10 ^ 2 := by omega
  have hminute : dt.time / 60000000 % 60 < 10 ^ 2 := by omega
  have hsecond : dt.time / 1000000 % 60 < 10 ^ 2 := by omega
  have hmicro : dt.time % 1000000 < 1000000 := Nat.mod_lt _ (by omega)
  have hwall : dt.wall = (dt.date.toOrdinal - 719163 : ℤ) * microsPerDay + dt.time := by
    rw [hordinal]
    unfold Datetime.time microsPerDay
    omega
  unfold readIso8601 Datetime.isoformat
  simp only [htz, Option.elim, List.append_assoc, List.cons_append, field_pad hyear, field_pad hmonth,
    field_pad hday, field_pad hhour, field_pad hminute, field_pad hsecond, skip_cons,
    readFraction_append hmicro, readOffset_formatOffset hwithin, Option.bind_eq_bind,
    Option.bind_some]
  have hdate : Date.mk dt.date.year dt.date.month dt.date.day = dt.date := rfl
  rw [Datetime.instant, htz, hwall, hdate]
  unfold microsPerDay microsPerMinute
  push_cast
  refine congrArg some (Prod.ext ?_ rfl)
  simp only [Option.elim]
  omega

theorem fromtimestamp_tzinfo {timestamp : Value} {tz : RqlTzinfo} {dt : Datetime}
    (h : Datetime.fromtimestamp timestamp tz = .ok dt) : dt.tzinfo = some tz := by
  obtain ⟨utc, -, h⟩ := bind_eq_ok.mp h
  dsimp only at h
  split at h
  · split at h
    · cases h
      rfl
    · cases h
  · cases h

theorem fromtimestamp_int {t : ℤ} {tz : RqlTzinfo} (htz : tz.WithinDay) (ht : InRange (t * 1000000))
    (hlocal : InRange (t * 1000000 + tz.delta * microsPerMinute)) :
    ∃ dt, Datetime.fromtimestamp (.scalar (.int t)) tz = .ok dt ∧ dt.tzinfo = some tz ∧
      dt.instant = t * 1000000 := by
  refine ⟨⟨_, some tz, hlocal, by simpa using htz⟩, ?_, rfl, Int.add_sub_cancel _ _⟩
  have hutc : Datetime.utcfromtimestamp (.scalar (.int t)) = .ok ⟨t * 1000000, none, ht, by simp⟩ :=
    dif_pos ht
  unfold Datetime.fromtimestamp
  rw [hutc]
  exact (dif_pos htz).trans (dif_pos hlocal)

theorem exprDatetime_eq_ok {dt : Datetime} {tz : RqlTzinfo} (htz : dt.tzinfo = some tz) {n : ℤ}
    (hn : 0 < n) : exprDatetime dt n = .ok ⟨[.datum (.str (.ofList dt.isoformat))]⟩ := by
  unfold exprDatetime
  rw [if_neg (by omega), htz]
  rfl

/-! ### There and back -/

/-- The timezones `+HH:MM` and `-HH:MM`. -/
structure Zone where
  negative : Bool
  hours : ℕ
  minutes : ℕ
  hhours : hours ≤ 23
  hminutes : minutes ≤ 59

namespace Zone

def sign (zone : Zone) : Char := if zone.negative then '-' else '+'

def text (zone : Zone) : List Char := zone.sign :: pad 2 zone.hours ++ ':' :: pad 2 zone.minutes

def offset (zone : Zone) : ℤ :=
  (if zone.negative then -1 else 1) * (60 * zone.hours + zone.minutes)

/-- What `RqlTzinfo` makes of it: the sign stays with the hours. -/
def delta (zone : Zone) : ℤ := (if zone.negative then -1 else 1) * zone.hours * 60 + zone.minutes

variable (zone : Zone)

theorem sign_eq : zone.sign = '+' ∨ zone.sign = '-' := by
  unfold sign
  cases zone.negative with
  | true => exact .inr rfl
  | false => exact .inl rfl

theorem splitOn_text : zone.text.splitOn ':' = [zone.sign :: pad 2 zone.hours, pad 2 zone.minutes] := by
  have hdigits : ∀ n, ':' ∉ pad 2 n := fun n => not_mem_of_isDigit (fun c => isDigit_pad) (by decide)
  have hsign : ':' ≠ zone.sign := by
    cases zone.sign_eq with
    | inl h => rw [h]; decide
    | inr h => rw [h]; decide
  rw [text, List.splitOn_append_cons_self_of_not_mem, List.splitOn_eq_singleton (hdigits _)]
  simp [hdigits, hsign]

theorem pad_ne_nil (n : ℕ) : pad 2 n ≠ [] := List.ne_nil_of_length_pos (by simp)

theorem init_text : RqlTzinfo.init (.ofList zone.text) = .ok ⟨.ofList zone.text, zone.delta⟩ := by
  have hhours := zone.hhours
  have hminutes := zone.hminutes
  have hread : toInt (zone.sign :: pad 2 zone.hours) =
      some ((if zone.sign = '-' then -1 else 1) * (zone.hours : ℤ)) := by
    rw [toInt_signed zone.sign_eq (pad_ne_nil _) (fun c => isDigit_pad), ofDigitChars_pad (by omega)]
  have hread' : toInt (pad 2 zone.minutes) = some (zone.minutes : ℤ) := by
    rw [toInt_digits (pad_ne_nil _) (fun c => isDigit_pad), ofDigitChars_pad (by omega)]
    rfl
  have hsign : (if zone.sign = '-' then (-1 : ℤ) else 1) = if zone.negative then -1 else 1 := by
    unfold sign
    cases zone.negative with
    | true => rfl
    | false => rfl
  have hdelta : -999999999 ≤ zone.delta / 1440 ∧ zone.delta / 1440 ≤ 999999999 := by
    unfold delta
    split_ifs
    · omega
    · omega
  unfold RqlTzinfo.init
  simp only [String.toList_ofList, splitOn_text, hread, hread', hsign]
  exact if_pos hdelta

theorem delta_eq_offset : zone.delta = zone.offset ↔ zone.negative = false ∨ zone.minutes = 0 := by
  unfold delta offset
  cases zone.negative with
  | true => simp; omega
  | false => simp; omega

theorem offset_within : -1440 < zone.offset ∧ zone.offset < 1440 := by
  have hhours := zone.hhours
  have hminutes := zone.hminutes
  unfold offset
  split_ifs
  · omega
  · omega

theorem formatOffset_offset :
    Datetime.formatOffset zone.offset = zone.text ↔
      zone.negative = false ∨ zone.hours ≠ 0 ∨ zone.minutes ≠ 0 := by
  have hhours := zone.hhours
  have hminutes := zone.hminutes
  have habs : zone.offset.natAbs = 60 * zone.hours + zone.minutes := by
    unfold offset
    split_ifs
    · omega
    · omega
  have hdiv : zone.offset.natAbs / 60 = zone.hours := by omega
  have hmod : zone.offset.natAbs % 60 = zone.minutes := by omega
  unfold Datetime.formatOffset text sign
  rw [hdiv, hmod]
  unfold offset
  cases zone.negative with
  | true => simp; omega
  | false => simp; omega

end Zone

/-- The datetime of `obj` is at `t` seconds in `zone`, and so is the time `expr` makes of it. -/
def Survives (obj : List (String × Value)) (t : ℤ) (zone : Zone) : Prop :=
  ∃ dt tz text, convertTime obj = .ok dt ∧ dt.instant = t * 1000000 ∧
    dt.tzinfo = some tz ∧ tz.delta = zone.offset ∧
    (∀ nestingDepth, 0 < nestingDepth →
      exprDatetime dt nestingDepth = .ok ⟨[.datum (.str (.ofList text))]⟩) ∧
    readIso8601 text = some (t * 1000000, zone.text)

section RoundTrip

variable {obj : List (String × Value)} {t : ℤ} {zone : Zone}

theorem convertTime_eq (hepoch : obj.lookup "epoch_time" = some (.scalar (.int t)))
    (htimezone : obj.lookup "timezone" = some (.scalar (.str (.ofList zone.text)))) :
    convertTime obj = Datetime.fromtimestamp (.scalar (.int t)) ⟨.ofList zone.text, zone.delta⟩ := by
  simp only [convertTime, hepoch, htimezone, zone.init_text]
  rfl

theorem zone_of_survives (hepoch : obj.lookup "epoch_time" = some (.scalar (.int t)))
    (htimezone : obj.lookup "timezone" = some (.scalar (.str (.ofList zone.text))))
    (h : Survives obj t zone) : zone.negative = false ∨ zone.minutes = 0 ∧ zone.hours ≠ 0 := by
  obtain ⟨dt, tz, text, hdt, -, htz, hoffset, hexpr, hread⟩ := h
  have htz' := fromtimestamp_tzinfo ((convertTime_eq hepoch htimezone).symm.trans hdt)
  have hdelta : zone.delta = zone.offset := by
    rw [← hoffset, Option.some.inj (htz.symm.trans htz')]
  have htext : text = dt.isoformat := by
    have h := (hexpr 1 (by omega)).symm.trans (exprDatetime_eq_ok htz (by omega))
    have hlists : String.ofList text = String.ofList dt.isoformat := by simpa using h
    exact String.ofList_injective hlists
  rw [htext, readIso8601_isoformat htz, hoffset] at hread
  have hprinted : Datetime.formatOffset zone.offset = zone.text :=
    (Prod.mk.inj (Option.some.inj hread)).2
  have hminutes := zone.delta_eq_offset.mp hdelta
  have hnonzero := zone.formatOffset_offset.mp hprinted
  tauto

theorem survives_of_zone (hepoch : obj.lookup "epoch_time" = some (.scalar (.int t)))
    (htimezone : obj.lookup "timezone" = some (.scalar (.str (.ofList zone.text))))
    (ht : InRange (t * 1000000)) (hlocal : InRange (t * 1000000 + zone.offset * microsPerMinute))
    (h : zone.negative = false ∨ zone.minutes = 0 ∧ zone.hours ≠ 0) : Survives obj t zone := by
  have hdelta : zone.delta = zone.offset := zone.delta_eq_offset.mpr (by tauto)
  have hprinted : Datetime.formatOffset zone.offset = zone.text :=
    zone.formatOffset_offset.mpr (by tauto)
  have hwithin : RqlTzinfo.WithinDay ⟨.ofList zone.text, zone.delta⟩ := by
    unfold RqlTzinfo.WithinDay
    rw [hdelta]
    exact zone.offset_within
  obtain ⟨dt, hdt, htz, hinstant⟩ := fromtimestamp_int hwithin ht (by rw [hdelta]; exact hlocal)
  have hconvert := (convertTime_eq hepoch htimezone).trans hdt
  have hread : readIso8601 dt.isoformat = some (t * 1000000, zone.text) := by
    rw [readIso8601_isoformat htz, hinstant, hdelta, hprinted]
  exact ⟨dt, _, dt.isoformat, hconvert, hinstant, htz, hdelta,
    fun n hn => exprDatetime_eq_ok htz hn, hread⟩

/-- The sign of a timezone reaches its minutes only when they are zero, and `-00:00` comes back as
`+00:00`. -/
theorem datetime_survives_iff (hepoch : obj.lookup "epoch_time" = some (.scalar (.int t)))
    (htimezone : obj.lookup "timezone" = some (.scalar (.str (.ofList zone.text))))
    (ht : InRange (t * 1000000)) (hlocal : InRange (t * 1000000 + zone.offset * microsPerMinute)) :
    Survives obj t zone ↔ zone.negative = false ∨ zone.minutes = 0 ∧ zone.hours ≠ 0 :=
  ⟨zone_of_survives hepoch htimezone, survives_of_zone hepoch htimezone ht hlocal⟩

end RoundTrip

def timeObject (timezone : String) : List (String × Value) :=
  [("$reql_type$", .scalar (.str "TIME")), ("epoch_time", .scalar (.int 0)),
    ("timezone", .scalar (.str timezone))]

theorem datetime_survives_nepal :
    Survives (timeObject "+05:45") 0 ⟨false, 5, 45, by decide, by decide⟩ :=
  (datetime_survives_iff rfl rfl (by decide) (by decide)).mpr (.inl rfl)

theorem datetime_lost_newfoundland :
    ¬ Survives (timeObject "-03:30") 0 ⟨true, 3, 30, by decide, by decide⟩ := by
  intro h
  have hzone := zone_of_survives rfl rfl h
  simp at hzone

end RethinkDB.Ast
