import MiniBeam.Model.Types

/-! Tagged 32-bit terms (`mb_term.h`). -/

namespace MiniBeam

def tagMask : Term := 0xF
def tagSmallint : Term := 0xF
def tagAtom : Term := 0xB
def tagPid : Term := 0x3
def tagBoxed : Term := 0x2
def tagCons : Term := 0x1

def isSmallint (t : Term) : Bool := t &&& tagMask == tagSmallint
def isAtom (t : Term) : Bool := t &&& tagMask == tagAtom
def isPid (t : Term) : Bool := t &&& tagMask == tagPid
def isBoxed (t : Term) : Bool := t &&& tagMask == tagBoxed
def isCons (t : Term) : Bool := t &&& tagMask == tagCons
def isImmediate (t : Term) : Bool := isSmallint t || isAtom t || isPid t

/-- `MB_MAKE_SMALLINT`: the shift drops the top four bits of `v`. -/
def makeSmallint (v : I32) : Term := (v <<< 4) ||| tagSmallint

/-- `MB_GET_SMALLINT`: an arithmetic shift, whatever the tag is. -/
def getSmallint (t : Term) : I32 := t.sshiftRight 4

def makePid (pid : Byte) : Term := (pid.setWidth 32 <<< 4) ||| tagPid

/-- `MB_MAKE_BOXED`, with the `uint32_t` cast of its argument. -/
def makeBoxed (off : ℕ) : Term := (BitVec.ofNat 32 off <<< 4) ||| tagBoxed
def getBoxed (t : Term) : ℕ := (t >>> 4).toNat

def makeCons (off : ℕ) : Term := (BitVec.ofNat 32 off <<< 4) ||| tagCons
def getCons (t : Term) : ℕ := (t >>> 4).toNat

def makeTupleHdr (arity : ℕ) : Term := BitVec.ofNat 32 arity <<< 6
def getTupleArity (hdr : Term) : ℕ := (hdr >>> 6).toNat
def isTupleHdr (w : Term) : Bool := w &&& 0x3F == 0

/-- `MB_MOVED_MARKER`: the first word of an object the collector has moved. -/
def movedMarker : Term := 0xDEAD0002
def isMoved (w : Term) : Bool := w == movedMarker

end MiniBeam
