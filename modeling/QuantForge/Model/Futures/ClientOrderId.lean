import QuantForge.Model.Market

namespace QuantForge

/-- What an order does within its operation. -/
inductive OrderLeg
  | entry
  | close
  | stop
  | bridge
  deriving DecidableEq

namespace OrderLeg

def all : List OrderLeg := [.entry, .close, .stop, .bridge]

def letter : OrderLeg → Char
  | .entry => 'e'
  | .close => 'c'
  | .stop => 's'
  | .bridge => 'b'

end OrderLeg

structure ActivationEpoch where
  get : UInt32
  deriving DecidableEq

/-- A client order ID QuantForge issued: its owner and epoch, the operation,
the leg and the attempt. -/
structure ClientOrderId where
  owner : OwnerTag
  epoch : ActivationEpoch
  operation : OperationId
  leg : OrderLeg
  attempt : Nat
  attempt_pos : 1 ≤ attempt
  attempt_le : attempt ≤ 1295
  deriving DecidableEq

namespace ClientOrderId

def digits36 : List Char := "0123456789abcdefghijklmnopqrstuvwxyz".toList

/-- `value` in lowercase base 36, without leading zeros. -/
def toBase36 (value : Nat) : List Char :=
  if value = 0 then ['0']
  else ((Nat.digits 36 value).map fun d => digits36.getD d '0').reverse

/-- Reads canonical lowercase base 36: no leading zeros, no overflow. -/
def fromBase36 (text : List Char) : Option Nat :=
  if text.isEmpty || (1 < text.length && text.head? == some '0') then none
  else text.foldlM (fun value c => do
    let digit ← digits36.idxOf? c
    if value * 36 < 2 ^ 64 ∧ value * 36 + digit < 2 ^ 64 then some (value * 36 + digit)
    else none) 0

def layout : String := "qf1"

def maxLen : Nat := 36

def maxAttempt : Nat := 1295

/-- The text layout 1 writes. -/
def toText (id : ClientOrderId) : String :=
  layout ++ "-" ++ id.owner.text ++ "-" ++
    String.ofList (toBase36 id.epoch.get.toNat) ++ "-" ++
    String.ofList (toBase36 id.operation.get.toNat) ++ "-" ++
    String.ofList (id.leg.letter :: toBase36 id.attempt)

/-- `text` read as layout 1, or `none` when it is someone else's ID. -/
def parseOurs (text : String) : Option ClientOrderId := do
  let [first, owner, epoch, operation, legAttempt] := text.toList.splitOn '-' | none
  if String.ofList first ≠ layout ∨ maxLen < text.utf8ByteSize then none
  let owner ← (TextId.new "owner tag" "6 of a-z and 0-9" (String.ofList owner)).toOption
  let epoch ← fromBase36 epoch
  if 2 ^ 32 ≤ epoch then none
  let operation ← fromBase36 operation
  let letter :: attempt := legAttempt | none
  let leg ← OrderLeg.all.find? fun leg => leg.letter == letter
  let attempt ← fromBase36 attempt
  if hop : UInt64.ofNat operation ≠ 0 then
    if hat : 1 ≤ attempt ∧ attempt ≤ maxAttempt then
      some ⟨owner, ⟨UInt32.ofNat epoch⟩, ⟨UInt64.ofNat operation, hop⟩, leg, attempt,
        hat.1, hat.2⟩
    else none
  else none

end ClientOrderId

end QuantForge
