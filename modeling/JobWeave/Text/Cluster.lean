import JobWeave.Text.Runs

/-!
# Clusters of characters

Characters that are shown as one form a cluster: a letter with its accents, the
parts of a Hangul syllable, two regional indicators as a flag, pictures that a
joiner ties together.

* `Shape.ofChar` is the part that a character takes in clusters, which is data of
  the Unicode standard;
* `Cluster.grow?` tells whether one more character belongs to a cluster;
* `Cluster.cells` is the number of cells of a screen that a cluster fills.
-/

namespace JobWeave.Text

/-- The part that a character takes in clusters. -/
inductive Shape where
  /-- a character that stands alone, with the cells it fills -/
  | plain (cells : Nat)
  /-- shows nothing and stands alone -/
  | control
  /-- belongs to the character before it -/
  | extend
  /-- ties pictures together -/
  | joiner
  /-- belongs to the character before it and fills cells of its own -/
  | spacing (cells : Nat)
  /-- belongs to the character behind it -/
  | prepended
  /-- half of a flag -/
  | indicator
  /-- a picture, with the cells it fills -/
  | picture (cells : Nat)
  /-- the first part of a syllable -/
  | lead
  /-- the middle part of a syllable -/
  | vowel
  /-- the last part of a syllable -/
  | trail
  /-- a syllable without its last part -/
  | openSyllable
  /-- a syllable with its last part -/
  | closedSyllable
  deriving DecidableEq, Repr, Inhabited

namespace Shape

/-- The shape that a letter of the run table stands for.  Of the syllables every
twenty-eighth is open. -/
def ofMark (code : Nat) : Char → Shape
  | 'b' => plain 2
  | 'i' => plain 3
  | 'j' => plain 4
  | 'c' => control
  | 'e' => extend
  | 'z' => joiner
  | 's' => spacing 1
  | 'm' => spacing 2
  | 'p' => prepended
  | 'r' => indicator
  | 'x' => picture 1
  | 'w' => picture 2
  | 'l' => lead
  | 'v' => vowel
  | 't' => trail
  | 'y' => if (code - 0xac00) % 28 = 0 then openSyllable else closedSyllable
  | _ => plain 1

/-- The runs as a text, with the letters of `ofMark`. -/
def runTable : String :=
  "32c95o33c9o1x3o1c1x593o112e275o7e263o45e1o1e1o2e1o2e1o1e56o6p10o11e1o1c46o21e16o1e101o7e" ++
  "1p1o6e2o2e1o4e33o1p1o1e30o27e91o11e58o9e9o1e24o4e1o9e1o3e1o5e43o3e52o2p6o8e42o24e1p32e1s" ++
  "54o1e1s1e1o3s8e4s1e2s1o7e10o2e29o1e2s56o1e1o1e2s4e2o2s2o2s1e9o1e10o2e26o1e2o2e1s56o1e1o" ++
  "3s2e4o2e2o3e3o1e30o2e3o1e11o2e1s56o1e1o3s5e1o2e1s1o2s1e20o2e22o6e1o1e2s56o1e1o2e1s4e2o2s" ++
  "2o2s1e7o3e10o2e30o1e59o1e1s1e2s3o3s1o3s1e9o1e40o1e3s1e55o1e1o3e4s1o3e1o4e7o2e11o2e29o1e" ++
  "2s56o1e1o1s1e2s1e2s1o1e2s1o2s2e7o2e11o2e15o1s12o2e2s55o2e1o1e2s4e1o3s1o3s1e1p8o1e10o2e" ++
  "29o1e2s70o1e4o1e2s3e1o1e1o7s1e18o2s61o1e1o1s7e12o8e98o1e1o1s9e11o7e73o2e27o1e1o1e1o1e4o" ++
  "2s49o14e1s5e1o2e5o11e1o36e9o1e102o4e1s6e1o2e2s2e23o2s2e4o3e16o4e13o1e1o1s2e6o1e15o1e98o" ++
  "96l72v88t349o3e946o3e1s28o2e1s29o2e30o2e64o2e1s7e8s1e2s11e9o1e45o3e1c1e117o2e34o1e118o3e" ++
  "4s2e3s4o2s1e6s3e219o2e2s1e57o1s1e1s7e1o1e1o1e2o8e6s10e2o1e48o31e49o4e1s47o7e1s1e5s1e2s" ++
  "38o9e12o2e1s30o1s4e2s2e1s3e56o1e1s2e3s1e1s3e2s48o8s8e2s2e152o3e1o13e1s7e4o1e6o1e2o1s2e" ++
  "198o64e523o1c1e1z2c24o7c13o1x12o1x22o16c96o33e49o1x22o1x90o6x15o2x367o2w12o1x2b93o1x70o" ++
  "1x25o4w3x1w2x1w4o3x199o1x231o2x10o1x9o1x58o2x2w1o6x1o12x1o2w50x12w43x1w6x10o3x1w13x1w8x" ++
  "2w17x2w5x2w8x1w5x1w21x1w7x2w1x1w4x1w2x1w7x1w2o2x2w7x1o1x1o1x6o1x3o1x6o1w10o2x15o1x2o1x4o" ++
  "1w1o1w4o3w1o1w11o5x45o3w9o1x14o1w14o1w372o2x463o3x19o2w51o1w4o1w409o3e141o1e96o32e58o1i" ++
  "1j68o26b1o89b12o214b26o12b4o42b6e1x12b1x1b2o86b2o2e101b5o43b1o94b1o84b12o47b1o40b8o71b1x" ++
  "1b1x6950b64o22157b3o55b424o4e1o10e32o2e80o2e272o1e3o1e4o1e23o2s2e1s4o1e83o2s50o16s2e26o" ++
  "18e13o1e38o8e25o11e2s12o29l3o3e1s47o1e2s4e2s2e3s36o1e67o6e2s2e2s2e12o1e8o1e1s46o1e51o1e" ++
  "1o3e2o2e5o2e1o1e41o1s2e2s5o1s1e236o2s1e2s1e2s1o1s1e18o11172y12o23v4o49t4o2048c6400o512b" ++
  "30o1e737o16e10b6o16e35b1o19b1o4b147o1c1o96b61o2e64o7b9o12c513o1e226o1e149o5e1670o3e1o2e" ++
  "5o4e40o3e4o1e165o2e573o4e387o2e80o3e70o11e49o4e122o1s1e1s53o15e41o1e2o2e10o3e1s45o3s4e2s" ++
  "2e2o1p4o1e10o1p50o3e36o5e1s8e16o2s44o1e12o2e1s48o3s9e2s1o2p5o4e1o1s1e92o3s3e2s1e1s2e6o1e" ++
  "2o1e157o1e3s8e21o2e2s55o2e1o1e1s1e4s2o2s2o3s9o1e10o2s2o7e3o5e192o3s8e2s3e1s1e23o1e81o1e" ++
  "2s6e1s1e2s1e1s2e1s2e235o1e2s4e2o4s2e1s2e27o2e82o3s8e2s1e1s2e106o1e1s1e2s6e1s1e101o3e2o4e" ++
  "1s5e256o3s9e1s2e245o1e5s1o2s2o2e1s1e1p1s1p1s1e141o3s4e2o2e4s1e3o1s28o10e40o6e1s1p4e8o1e" ++
  "9o6e2s3e40o6p13e1s2e405o1s7e1o6e1s1e82o22e1o1s7e1s2e1s2e122o6e3o1e1o2e1o7e1p1e66o5s1o2e" ++
  "1o2s1e1s1e347o2e2s9o2e1p1s48o2s5e3o2s1e1s1e5357o16c1e6o15e13978o5e59o7e1048o1e1o55s7o4e" ++
  "77o4b1e11o2m14o6136b8o1238b42o9b8935o4b1o7b1o2b1o291b15o1b29o3b2o1b14o4b8o396b2465o2e1o" ++
  "4c4700o46e2o23e542o1e1s3e3o1s5e8c8e2o7e30o4e148o3e1979o55e4o50e8o1e14o1e22o5e1o15e1360o" ++
  "7e1o17e2o7e1o2e1o5e100o1e160o7e375o1e61o4e508o4e992o7e109o7e1717o4x1w202x1w48x13o3x31o1x" ++
  "60o6x12o2x14o1w2o10w18o57x26r1b1w14x10b1w20b1w2b5w1x3w1b4x9b7x2w174x33w12x9w1x70w1x22w" ++
  "12x43w4x5w12x17w3x1w3x3w5e63w1x1w1x187w2x63w8o5x4w1x24w18x1w26x2w13x1w86x85w48o70w6x1w3x" ++
  "3w2x3w4x4w11x2w7x9w3x116o12x85o11x12w4x1w15x12o4x56o8x10o6x40o8x30o82x12o47w1o10w1o185w" ++
  "112x13w3x9w7x46w1x7w8x14w4x9w7x9w7x256o1022x2o65534b2o65534b655362o32c96e128c240e3600c" ++
  "192512o"

/-- The runs of the standard. -/
def runs : Runs.Table :=
  Runs.read runTable

/-- The shape of a character. -/
def ofChar (c : Char) : Shape :=
  ofMark c.toNat ((Runs.mark? runs c.toNat).getD 'o')

/-- The cells that a character fills. -/
def cells : Shape → Nat
  | plain n | spacing n | picture n => n
  | control | extend | joiner => 0
  | prepended | vowel | trail => 1
  | indicator | lead | openSyllable | closedSyllable => 2

end Shape

/-- What the end of a cluster waits for. -/
inductive Joint where
  | none
  /-- nothing may follow -/
  | closed
  /-- anything may follow -/
  | anything
  /-- a syllable that may still get any part -/
  | lead
  /-- a syllable that may still get a middle or a last part -/
  | vowel
  /-- a syllable that may still get a last part -/
  | trail
  /-- a picture -/
  | picture
  /-- a picture and a joiner -/
  | joined
  /-- half of a flag -/
  | half
  deriving DecidableEq, Repr, Inhabited

namespace Joint

/-- What a cluster of one character waits for. -/
def start : Shape → Joint
  | .control => closed
  | .lead => lead
  | .vowel | .openSyllable => vowel
  | .trail | .closedSyllable => trail
  | .prepended => anything
  | .picture _ => picture
  | .indicator => half
  | _ => none

/-- What a cluster waits for behind one more character; nothing when the
character belongs to the next cluster. -/
def next? : Joint → Shape → Option Joint
  | closed, _ | _, .control => Option.none
  | lead, .lead => some lead
  | lead, .vowel | lead, .openSyllable => some vowel
  | lead, .closedSyllable => some trail
  | vowel, .vowel => some vowel
  | vowel, .trail | trail, .trail => some trail
  | picture, .extend => some picture
  | picture, .joiner => some joined
  | joined, .picture _ => some picture
  | half, .indicator => some none
  | _, .extend | _, .joiner | _, .spacing _ => some none
  | anything, shape => some (start shape)
  | _, _ => Option.none

end Joint

/-- A cluster. -/
structure Cluster where
  /-- the shape of its first character -/
  first : Shape
  /-- what it waits for -/
  joint : Joint
  /-- the cells it fills -/
  cells : Nat
  deriving Repr

namespace Cluster

/-- A cluster of one character. -/
def start (c : Char) : Cluster :=
  let shape := Shape.ofChar c
  ⟨shape, Joint.start shape, shape.cells⟩

/-- The cells of a cluster with one more character.  A selector tells whether a
picture is shown as a text or as a picture; flags and syllables do not grow. -/
def widen (k : Cluster) (c : Char) : Nat :=
  match k.first with
  | .picture _ => if c.toNat = 0xfe0e then 1 else if c.toNat = 0xfe0f then 2 else k.cells
  | .indicator | .lead => k.cells
  | _ => k.cells + (Shape.ofChar c).cells

/-- A cluster with one more character, if it belongs to it. -/
def grow? (k : Cluster) (c : Char) : Option Cluster :=
  (k.joint.next? (Shape.ofChar c)).map fun joint => ⟨k.first, joint, k.widen c⟩

end Cluster

end JobWeave.Text
