import XNMiner.Common

/-!
# Block types

`mining/block_types.cpp`: an XUNI block has `XUNI` and a digit somewhere in its hash text, an
XBLK ("superblock") has `XEN11` and a digest with at least fifty upper-case letters, an XNM has
`XEN11`.  The pool or the GPU may have named the type already, in any case and with stray
spaces or NULs.
-/

namespace XNMiner

def superUppercaseMin : Nat := 50

/-- `std::isspace` in the C locale. -/
def isSpace (c : Char) : Bool :=
  c = ' ' || c = '\t' || c = '\n' || c = '\r' || c.toNat = 11 || c.toNat = 12

/-- The text after the last `$`. -/
def afterLastDollar (cs : List Char) : List Char :=
  (cs.reverse.takeWhile fun c ↦ decide (c ≠ '$')).reverse

def hashDigestForSuperblock (hashStr : String) : String :=
  let cs := hashStr.toList
  if cs.head? = some '$' ∨ 4 ≤ cs.count '$' then String.ofList (afterLastDollar cs) else hashStr

def uppercaseCount (text : String) : Nat := text.toList.countP Char.isUpper

def isSuperblock (hashStr : String) (minUpper : Nat := superUppercaseMin) : Bool :=
  decide (minUpper ≤ uppercaseCount (hashDigestForSuperblock hashStr))

/-- `std::regex_search` for `XUNI[0-9]`. -/
def hasXuniTag : List Char → Bool
  | [] => false
  | c :: cs =>
      (match c :: cs with
        | 'X' :: 'U' :: 'N' :: 'I' :: d :: _ => d.isDigit
        | _ => false) || hasXuniTag cs

/-- The block type as `classify_block` compares it: upper case, no NULs, trimmed. -/
def normalizeType (blockType : String) : String :=
  let cs := (upper blockType).toList.filter fun c ↦ decide (c.toNat ≠ 0)
  String.ofList ((cs.dropWhile isSpace).reverse.dropWhile isSpace).reverse

/-- `classify_block`: `XUNI`, `XBLK`, `XNM` or `OTHER`. -/
def classifyBlock (hashStr blockType : String) : String :=
  let bt := normalizeType blockType
  if bt = "XUNI" ∨ hasXuniTag hashStr.toList then "XUNI"
  else if bt = "XBLK" ∨ (hasSubstr hashStr "XEN11" ∧ isSuperblock hashStr) then "XBLK"
  else if hasSubstr hashStr "XEN11" ∨ bt = "XEN11" ∨ bt = "NORMAL" ∨ bt = "XNM" then "XNM"
  else "OTHER"

end XNMiner
