import XNMiner.Common

/-!
# Caps on video memory

`resolve_vram_caps` (`efficiency/vram_policy.cpp`) turns percentages of a card into amounts in MiB;
an override that is positive takes the place of its percentage.  Percentages are exact rationals.
-/

namespace XNMiner

/-- The arguments of `resolve_vram_caps` after the size of the card: the settings of the section
`[vram]`. -/
structure VramCapArgs where
  targetPct : Rat := 80
  desktopHeadroomPct : Rat := 20
  emergencyVramPct : Rat := 95
  minHeadroomPct : Rat := 7 / 2
  runtimeOverheadPct : Rat := 6
  minHeadroomFloorMib : Int := 512
  overheadFloorMib : Int := 256
  targetMibOverride : Int := 0
  headroomMibOverride : Int := 0
  emergencyMibOverride : Int := 0
  minHeadroomMibOverride : Int := 0
  runtimeOverheadMibOverride : Int := 0

structure VramCaps where
  totalMib : Int
  targetMib : Int
  headroomMib : Int
  emergencyMib : Int
  minHeadroomMib : Int
  runtimeOverheadMib : Int
  targetPct : Rat
  headroomPct : Rat
  emergencyPct : Rat
  minHeadroomPct : Rat
  overheadPct : Rat
deriving DecidableEq

def clampPct (v : Rat) : Rat := max 0 (min 100 v)

/-- A percentage of the card, or the override in its place. -/
def vramShare (total : Int) (pct : Rat) (override : Int) : Int :=
  if 0 < override then override else llround (total * pct / 100)

/-- The same with a floor under the percentage. -/
def vramShareFrom (low total : Int) (pct : Rat) (override : Int) : Int :=
  if 0 < override then override else max low (llround (total * pct / 100))

/-- `std::clamp`. -/
def clampInt (v lo hi : Int) : Int := max lo (min v hi)

def resolveVramCaps (totalMib : Int) (args : VramCapArgs) : VramCaps :=
  let total := max 1 totalMib
  let tPct := clampPct args.targetPct
  let hPct := clampPct args.desktopHeadroomPct
  let ePct := clampPct args.emergencyVramPct
  let mPct := clampPct args.minHeadroomPct
  let oPct := clampPct args.runtimeOverheadPct
  let target := clampInt (vramShare total tPct args.targetMibOverride) 1 total
  { totalMib := total
    targetMib := target
    headroomMib := clampInt (vramShare total hPct args.headroomMibOverride) 0 total
    emergencyMib := clampInt (vramShare total ePct args.emergencyMibOverride) target total
    minHeadroomMib := clampInt
      (vramShareFrom args.minHeadroomFloorMib total mPct args.minHeadroomMibOverride) 0 total
    runtimeOverheadMib := clampInt
      (vramShareFrom args.overheadFloorMib total oPct args.runtimeOverheadMibOverride) 0 total
    targetPct := tPct
    headroomPct := hPct
    emergencyPct := ePct
    minHeadroomPct := mPct
    overheadPct := oPct }

end XNMiner
