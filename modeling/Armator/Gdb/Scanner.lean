import Armator.Gdb.Protocol
import Armator.Lib.Lexer

set_option autoImplicit false

/-! # The scanner (`scanner.l`)

The lexer is the longest-match lexer of the four rules. The action of a token returns the
new length of the error buffer; a newline falls to the default rule, which echoes it.
-/

namespace Armator

open Logged CString

def MAX_ERROR_SIZE : Nat := 1024

/-! ## The rules -/

/-- `"$"[^$#]*"#"{HEX}{HEX}` -/
def matchesPacket (w : List Byte) : Bool :=
  match w with
  | [] => false
  | d :: w =>
    let body := w.take (w.length - 3)
    match w.drop (w.length - 3) with
    | [h, x, y] =>
      d = chr '$' && body.all (fun b => b ≠ chr '$' && b ≠ chr '#') && h = chr '#' &&
        isHexDigit x && isHexDigit y
    | _ => false

/-- `.` -/
def matchesChar (w : List Byte) : Bool := w.length = 1 && w ≠ [10]

def scannerRules : List (Lexer.Rule Byte) :=
  [fun w => w = [chr '+'], fun w => w = [chr '-'], matchesPacket, matchesChar]

inductive ScannerToken
  | ack
  | retransmission
  | packet (yytext : List Byte)
  | char (c : Byte)
  | echo (c : Byte)
deriving DecidableEq

/-- The token of a rule and a text. -/
def ScannerToken.of : Lexer.Token Byte → ScannerToken
  | (some 0, _) => .ack
  | (some 1, _) => .retransmission
  | (some 2, yytext) => .packet yytext
  | (some _, yytext) => .char (yytext.headD 0)
  | (none, yytext) => .echo (yytext.headD 0)

/-- The tokens of an input. -/
def scannerTokens (input : List Byte) : List ScannerToken :=
  (Lexer.tokenize scannerRules input).map ScannerToken.of

/-! ## The actions -/

/-- `len` is `data->len`; the result is its new value. -/
def handleError (len : Nat) : GdbM Nat := do
  if len ≠ 0 then
    gdbEmit (.errorStore len)
    gdbRequireRetransmission
    return 0
  else
    return len

def addCharacterToError (len : Nat) : GdbM Nat := do
  let len ← if len > MAX_ERROR_SIZE - 2 then handleError len else pure len
  gdbEmit (.errorStore len)
  return len + 1

/-- The characters of flex's buffer behind `yytext` and its NUL are arbitrary. -/
def ScannerToken.act (cfg : GdbConfig) (u : GdbLocals) (behind : List Byte) (len : Nat) :
    ScannerToken → GdbM Nat
  | .ack => handleError len
  | .retransmission => do
    let len ← handleError len
    gdbTransmitPacket
    return len
  | .packet yytext => do
    let len ← handleError len
    gdbPacketAnalysis cfg u (yytext ++ 0 :: behind) yytext.length
    return len
  | .char _ => addCharacterToError len
  | .echo _ => return len

/-- A token together with the circumstances it is acted upon in. -/
structure Arrival where
  token : ScannerToken
  locals : GdbLocals
  behind : List Byte

/-- The actions of a list of tokens. -/
def actAll (cfg : GdbConfig) : List Arrival → Nat → GdbM Nat
  | [], len => return len
  | a :: as, len => do
    let len ← a.token.act cfg a.locals a.behind len
    actAll cfg as len

/-- The actions up to the end of the input. -/
def yylex (cfg : GdbConfig) (arrivals : List Arrival) : GdbM Unit := do
  let len ← actAll cfg arrivals 0
  let _len ← handleError len

end Armator
