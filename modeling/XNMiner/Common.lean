import Mathlib.Algebra.Order.Ring.Int
import Mathlib.Data.Rat.Floor
import Mathlib.Data.String.Basic
import Mathlib.Data.List.Infix

/-!
# The records shared by all parts of the miner

`BlockHit` is one found block on its way to the pool: the key, the digest (later the whole
PHC string), what kind of block it is, and the cost and salt it was mined under.
`SubmitResult` is the pool's answer to one `POST /verify`.  C++ `int` and `int64_t` fields are
`Int`s; where a width matters the operation that narrows says so.  `double` fields are exact
rationals.
-/

namespace XNMiner

/-- A found block (`common.hpp`). -/
structure BlockHit where
  key : String := ""
  hashStr : String := ""
  blockType : String := ""
  attempts : Int := 0
  strategy : String := "random"
  hps : Rat := 0
  /-- ISO local time. -/
  foundAt : String := ""
  memoryCost : Option Int := none
  /-- Wallet this hash was mined for. -/
  payoutAccount : String := ""
  saltHex : String := ""
  feeBlock : Bool := false
deriving DecidableEq

/-- The snapshot of one `GET /difficulty` round; `seq = 0` means no poll yet. -/
structure NetworkStatus where
  ok : Bool := false
  difficulty : Option Int := none
  error : String := ""
  seq : Nat := 0
deriving DecidableEq

/-- The pool's answer to one `POST /verify`. -/
structure SubmitResult where
  ok : Bool := false
  status : Int := 0
  body : String := ""
deriving DecidableEq

/-- `std::llround` of a number that is not negative. -/
def llround (q : Rat) : Int := ⌊q + 1 / 2⌋

/-- ASCII upper case, character by character (`std::toupper` in a loop). -/
def upper (s : String) : String := String.ofList (s.toList.map Char.toUpper)

/-- ASCII lower case, character by character. -/
def lower (s : String) : String := String.ofList (s.toList.map Char.toLower)

/-- `s.find(t) != npos`. -/
def hasSubstr (s t : String) : Bool := decide (t.toList <:+: s.toList)

end XNMiner
