import Backstep.Program.Basic
import Backstep.Text.Numeral
/-!
# Listing entries

A listing is the text form of a program, one entry to a line:

```text
.data 03 00 00 00 00 00 00 00
.var limit 0 8 1.1-1.12
* 1: LOAD_I(0)
  2: ADD_I(1)
```

A `*` marks the first instruction of a statement, and the number before `:` is its source line. This
module knows what an entry does to a program, which entries make up a given program, and how an
entry is written.
-/

namespace Backstep

namespace Listing

inductive Entry
  /-- Bytes that follow those of the data lines before. -/
  | data (bytes : List UInt8)
  | declaration (v : Variable)
  | instruction (starts : Bool) (line : LineNumber) (instruction : Instruction)
deriving DecidableEq

def Entry.text : Entry → String
  | .data bytes => ".data " ++ " ".intercalate (bytes.map Numeral.hexOfByte)
  | .declaration v =>
    ".var " ++ v.name ++ " " ++ toString v.address.toNat ++ " " ++ toString v.size.toNat ++ " "
      ++ v.start.text ++ "-" ++ v.stop.text
  | .instruction starts line i =>
    (if starts then "* " else "  ") ++ toString line.toNat ++ ": " ++ i.text

end Listing

namespace Program

open Listing (Entry)

/-- The program with one more entry at its end. A variable takes the place of one at its address. -/
def add (p : Program) : Entry → Program
  | .data bytes => { p with data := p.data ++ bytes }
  | .declaration v => { p with vars := p.vars.insert v.address v }
  | .instruction starts line i =>
    { p with
      code := p.code.push i
      starts := if starts then p.starts.push p.code.size else p.starts
      lines := p.lines.push line }

def ofEntries (es : List Entry) : Program := es.foldl add {}

/-- The data of a program, sixteen bytes to an entry. -/
def dataEntries (p : Program) : List Entry :=
  (List.range ((p.data.size + 15) / 16)).map fun i =>
    .data (p.data.extract (16 * i) (16 * i + 16)).toList

/-- The instructions of a program. One without a source line is listed under line zero. -/
def codeEntries (p : Program) : List Entry :=
  p.code.toList.zipIdx.map fun (i, k) =>
    .instruction (p.startsAt k) ((p.line? k).getD 0) i

def entries (p : Program) : List Entry :=
  p.dataEntries ++ p.vars.values.map .declaration ++ p.codeEntries

def text (p : Program) : String := String.join (p.entries.map fun e => e.text ++ "\n")

end Program

end Backstep
