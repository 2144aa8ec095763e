import XNMiner.Lib.Lines
import XNMiner.Lib.Trim
import XNMiner.Mining.BlockTypes

/-!
# The ini file

`config/settings.cpp` reads the ini file with `parse_ini` and changes one value of it with
`set_ini_value`.  The two go through the lines of the file each in its own way: the reader skips
comments and cuts a value at ` #`, the writer does neither.

A text is a list of characters, as the streams deliver it.
-/

namespace XNMiner

open Lib

/-! ## Lines -/

/-- `if (!line.empty() && line.back() == '\r') line.pop_back();` -/
def popCr (line : List Char) : List Char :=
  if line.getLast? = some '\r' then line.dropLast else line

/-- The lines as both functions get them. -/
def readLines (text : List Char) : List (List Char) := (lines '\n' text).map popCr

def toLower (cs : List Char) : List Char := cs.map Char.toLower

/-- A trimmed line that opens a section. -/
def isHeader (t : List Char) : Bool :=
  decide (t.head? = some '[') && decide (t.getLast? = some ']')

/-- The section it opens. -/
def headerName (t : List Char) : List Char := toLower (trim isSpace (t.drop 1).dropLast)

/-- The parts of a line before and after its first `=`. -/
def cutAtEq (t : List Char) : Option (List Char × List Char) :=
  if '=' ∈ t then
    some (t.takeWhile (fun c ↦ decide (c ≠ '=')), (t.dropWhile fun c ↦ decide (c ≠ '=')).drop 1)
  else none

/-- A key, from the part before the `=`. -/
def keyName (cs : List Char) : List Char := toLower (trim isSpace cs)

/-! ## `parse_ini` -/

/-- `Ini`: what the key of a section is set to. -/
abbrev Ini := List Char × List Char → Option (List Char)

/-- Where `parse_ini` is. -/
structure IniReader where
  sec : List Char := []
  ini : Ini := fun _ ↦ none

/-- The text up to the first ` #`. -/
def beforeComment : List Char → List Char
  | [] => []
  | c :: cs => if [' ', '#'] <+: c :: cs then [] else c :: beforeComment cs

/-- A value without the comment behind it. -/
def stripComment (val : List Char) : List Char :=
  if [' ', '#'] <:+: val then trim isSpace (beforeComment val) else val

/-- One line. -/
def IniReader.read (r : IniReader) (line : List Char) : IniReader :=
  let t := trim isSpace line
  if t = [] ∨ t.head? = some '#' ∨ t.head? = some ';' then r
  else if isHeader t then { r with sec := headerName t }
  else
    match cutAtEq t with
    | none => r
    | some (key, val) => { r with
        ini := Function.update r.ini (r.sec, keyName key)
          (some (stripComment (trim isSpace val))) }

def parseIni (text : List Char) : Ini := ((readLines text).foldl IniReader.read {}).ini

/-! ## `set_ini_value` -/

/-- Where the loop of `set_ini_value` is. -/
structure IniEditor where
  inSec : Bool := false
  wrote : Bool := false
  foundSec : Bool := false
  out : List (List Char) := []

/-- The line that sets the value. -/
def iniEntry (key value : List Char) : List Char := key ++ ' ' :: '=' :: ' ' :: value

/-- `sec_hdr`. -/
def iniHeader (sec : List Char) : List Char := '[' :: (sec ++ [']'])

/-- The value is written at the end of its section, if it has not been written. -/
def IniEditor.close (e : IniEditor) (key value : List Char) : IniEditor :=
  if e.inSec = true ∧ e.wrote = false then
    { e with out := e.out ++ [iniEntry key value], wrote := true }
  else e

/-- One line. -/
def IniEditor.edit (sec key value : List Char) (e : IniEditor) (line : List Char) : IniEditor :=
  let t := trim isSpace line
  if isHeader t then
    let e := e.close key value
    let inSec := decide (headerName t = toLower sec)
    { e with inSec, foundSec := e.foundSec || inSec, out := e.out ++ [line] }
  else
    let hit := e.inSec && match cutAtEq t with
      | none => false
      | some (k, _) => decide (keyName k = toLower key)
    if hit then { e with out := e.out ++ [iniEntry key value], wrote := true }
    else { e with out := e.out ++ [line] }

/-- What is written, in lines. -/
def editLines (sec key value : List Char) (ls : List (List Char)) : List (List Char) :=
  let e := (ls.foldl (IniEditor.edit sec key value) {}).close key value
  if e.foundSec then e.out
  else
    let out := if e.out ≠ [] ∧ e.out.getLast? ≠ some [] then e.out ++ [[]] else e.out
    out ++ [iniHeader sec, iniEntry key value]

def setIniValue (sec key value : List Char) (text : List Char) : List Char :=
  unlines '\n' (editLines sec key value (readLines text))

end XNMiner
