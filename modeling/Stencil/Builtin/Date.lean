import Stencil.Builtin.Text
import Stencil.Time.Format
import Stencil.Time.Iso

namespace Stencil.Filter

open Decimal

def isCountable (seconds : Int) : Bool :=
  -0x8000000000000000 ≤ seconds && seconds < 0x8000000000000000

def yearFault (year : Int) : Fault :=
  if -0x80000000 ≤ year - 1900 ∧ year - 1900 < 0x80000000 then
    .badValue ("year " ++ toString year ++ " is out of range")
  else .systemFailure "[Errno 75] Value too large for defined data type"

/-- The moment so many seconds and microseconds after the beginning of 1970. The day before it is
to be in the calendar, too. -/
def momentAt (seconds : Int) (micros : Nat) : Except Fault Moment :=
  if !isCountable seconds then
    .error (.tooLarge "timestamp out of range for platform time_t")
  else
    let day := seconds / 86400 + 719163
    match Moment.ofEpochMicros? (seconds * 1000000 + micros) with
    | none => .error (yearFault (Date.ofOrdinal day).year)
    | some m =>
        if Date.isValidYear (Date.ofOrdinal (day - 1)).year then .ok m
        else .error (yearFault (Date.ofOrdinal (day - 1)).year)

/-- The moment of a timestamp, to the nearest microsecond. The fraction is scaled as a
floating-point number before it is rounded. -/
def momentOfFloat (f : Float) : Except Fault Moment :=
  match truncate? f with
  | none =>
      if f != f then .error (.badValue "Invalid value NaN (not a number)")
      else .error (.tooLarge "timestamp out of range for platform time_t")
  | some whole =>
      if !isCountable whole then .error (.tooLarge "timestamp out of range for platform time_t")
      else
        let fraction := (f - (floatOfInt? whole).getD 0) * 1000000
        match Binary.ofFloat fraction with
        | .finite negative m e =>
            let (n, d) := Decimal.fraction m e
            let micros := roundEven n d
            if negative ∧ 0 < micros then momentAt (whole - 1) (1000000 - micros)
            else if micros = 1000000 then momentAt (whole + 1) 0
            else momentAt whole micros
        | _ => .error (.badValue "Invalid value NaN (not a number)")

def formatted (m : Moment) (format : Value) : Except Fault Value :=
  match format.text? with
  | some format =>
      if format.toList.contains '\x00' then .error (.badValue "embedded null character")
      else .ok (plainText (m.format format))
  | none => .error (.wrongType ("strftime() argument 1 must be str, not " ++ argumentType format))

/-- Whether a refusal of a timestamp only means that the text is none. -/
def isNoTimestamp (f : Fault) : Bool :=
  f.kind == "ValueError" || f.kind == "OverflowError" || f.kind == "OSError"

def dateOfText (v : Value) (text : String) (format : Value) : Except Fault Value :=
  let stripped := Text.strip text.toList
  let asDate : Except Fault Value :=
    match Iso.moment? (String.ofList stripped) with
    | none => .ok v
    | some m =>
        match formatted m format with
        | .error fault => if fault.kind == "ValueError" then .ok v else .error fault
        | .ok result => .ok result
  match readFloat? stripped with
  | none => asDate
  | some f =>
      match momentOfFloat f >>= fun m => formatted m format with
      | .ok result => .ok result
      | .error fault => if isNoTimestamp fault then asDate else .error fault

/-- Formats dates, timestamps and texts that write either. Anything else is left as it is. -/
def date (v format : Value) : Except Fault Value :=
  match v with
  | .date d => formatted (Moment.ofDate d) format
  | .moment m => formatted m format
  | .int i => momentAt i 0 >>= fun m => formatted m format
  | .float f => momentOfFloat f >>= fun m => formatted m format
  | .str s | .markup s => dateOfText v s format
  | v => .ok v

end Stencil.Filter
