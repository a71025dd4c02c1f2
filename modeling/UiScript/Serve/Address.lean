import UiScript.Text.Digit
import UiScript.Text.Lines

/-!
# Addresses in brackets

The host of a link may be an address of the sixth version, or of a later one, in brackets.
-/

namespace UiScript.Serve.Address

open Text (isAsciiDigit isHexDigit)

/-- A number below 256 without leading zeros. -/
def isOctet (cs : List Char) : Bool :=
  !cs.isEmpty && cs.all isAsciiDigit && cs.length ≤ 3 && (cs.length == 1 || cs.head? != some '0') &&
    cs.foldl (fun n c => n * 10 + (c.toNat - '0'.toNat)) 0 ≤ 255

def isFourth (cs : List Char) : Bool :=
  let parts := Text.splitAt '.' cs
  parts.length == 4 && parts.all isOctet

/-- One to four hexadecimal digits. -/
def isGroup (cs : List Char) : Bool := !cs.isEmpty && cs.length ≤ 4 && cs.all isHexDigit

/-- The groups of an address of the sixth version, where a last part of the fourth version counts
for two. -/
def groups? (cs : List Char) : Option (List (List Char)) :=
  let parts := Text.splitAt ':' cs
  match parts.reverse with
  | last :: before =>
    if parts.length < 3 then none
    else if last.contains '.' then
      if isFourth last then some (before.reverse ++ [['0'], ['0']]) else none
    else some parts
  | [] => none

/-- The groups fill an address: eight of them, or fewer with one gap. -/
def fills (groups : List (List Char)) : Bool :=
  let inner := (groups.drop 1).dropLast
  let gaps := inner.count []
  if 9 < groups.length || 1 < gaps then false
  else if gaps == 0 then groups.length == 8 && groups.all isGroup
  else
    let above := groups.takeWhile (!·.isEmpty)
    let below := (groups.reverse.takeWhile (!·.isEmpty))
    let hidden := groups.length - above.length - below.length
    -- an empty group at either end belongs to the gap
    let ends := (if above.isEmpty then 1 else 0) + (if below.isEmpty then 1 else 0)
    hidden == 1 + ends && above.length + below.length < 8 && (above ++ below).all isGroup

/-- An address of the sixth version, with an optional zone. -/
def isSixth (cs : List Char) : Bool :=
  let address := cs.takeWhile (· != '%')
  let zone := cs.drop (address.length + 1)
  let zoneFits := address.length == cs.length || (!zone.isEmpty && !zone.contains '%')
  !cs.contains '/' && zoneFits && ((groups? address).map fills).getD false

def isLater (cs : List Char) : Bool :=
  let digits := (cs.drop 1).takeWhile isHexDigit
  let rest := cs.drop (1 + digits.length)
  !digits.isEmpty && rest.head? == some '.' && 1 < rest.length

end UiScript.Serve.Address
