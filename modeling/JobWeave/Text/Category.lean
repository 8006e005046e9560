import JobWeave.Text.Runs

/-!
# Categories of characters

Every code point belongs to one of four categories: letters, decimal digits,
other characters with a shape of their own (marks, numbers, punctuation,
symbols and the plain space), and characters without one (controls, formats,
separators, surrogates, private use and unassigned code points).  The
categories are data of the Unicode standard, kept as a table of runs.

* `Category.ofChar` is the category of a character;
* `isLetter`, `isDigit` and `isPrintable` are the questions the rest of the
  library asks.
-/

namespace JobWeave.Text

/-- What a character is, as far as names and quoted text care. -/
inductive Category where
  /-- a letter of some script -/
  | letter
  /-- a decimal digit of some script -/
  | digit
  /-- any other character that shows itself -/
  | graphic
  /-- a character that shows nothing -/
  | hidden
  deriving DecidableEq, Repr, Inhabited

namespace Category

/-- The category a letter of the run table stands for. -/
def ofMark? : Char → Option Category
  | 'l' => some .letter
  | 'd' => some .digit
  | 'g' => some .graphic
  | 'h' => some .hidden
  | _ => none

/-- The runs as a text, with the letters of `ofMark?`. -/
def runTable : String :=
  "32h16g10d7g26l6g26l4g34h9g1l2g1h7g1l4g1l5g23l1g31l1g458l4g12l14g5l7g1l1g1l129g5l1g2l2h4l" ++
  "1g1l4h2g1l1g3l1h1l1h20l1h83l1g139l8g166l1h38l2h1l6g41l2g2h3g1h55g8h27l4h4l2g17h22g1h3g" ++
  "43l21g10d4g2l1g99l1g1l7g1h7g2l7g2l10d3l2g1l14g2h1l1g30l27g2h89l11g1l14h10d33l9g2l4g1l2h" ++
  "3g22l4g1l9g1l3g1l5g2h15g1h25l3g2h1g1h11l5h24l1g7l7h9g42l24g1h33g54l3g1l18g1l7g10l4g10d1g" ++
  "16l3g1h8l2h2l2h22l1h7l1h1l3h4l2h1g1l7g2h2g2h3g1l8h1g4h2l1h3l2g2h10d2l10g1l2g2h3g1h6l4h2l" ++
  "2h22l1h7l1h2l1h2l1h2l2h1g1h5g4h2g2h3g3h1g7h4l1h1l7h10d2g3l2g10h3g1h9l1h3l1h22l1h7l1h2l1h" ++
  "5l2h1g1l8g1h3g1h3g2h1l15h2l2g2h10d2g7h1l6g1h3g1h8l2h2l2h22l1h7l1h2l1h5l2h1g1l7g2h2g2h3g" ++
  "7h3g4h2l1h3l2g2h10d1g1l6g10h1g1l1h6l3h3l1h4l3h2l1h1l1h2l3h2l3h3l3h12l4h5g3h3g1h4g2h1l6h" ++
  "1g14h10d11g5h5g8l1h3l1h23l1h16l2h1g1l7g1h3g1h4g7h2g1h3l1h2l2h2l2g2h10d7h9g1l4g8l1h3l1h" ++
  "23l1h10l1h5l2h1g1l7g1h3g1h4g7h2g5h3l1h2l2g2h10d1h2l1g12h4g9l1h3l1h41l2g1l7g1h3g1h4g1l1g" ++
  "4h3l8g3l2g2h10d10g6l1h3g1h18l3h24l1h9l1h1l2h7l3h1g4h6g1h1g1h8g6h10d2h3g12h48l1g2l7g4h1g" ++
  "7l9g10d2g37h2l1h1l1h5l1h24l1h1l1h10l1g2l9g1l2h5l1h1l1h7g1h10d2h4l32h1l31g10d22g8l1h36l4h" ++
  "23g5l11g1h36g1h15g1h13g37h43l20g1l10d6g6l4g4l3g1l3g2l7g3l4g13l12g1l1g10d6g38l1h1l5h1l2h" ++
  "43l1g333l1h4l2h7l1h1l1h4l2h41l1h4l2h33l1h4l2h7l1h1l1h4l2h15l1h57l1h4l2h67l2h32g3h16l10g" ++
  "6h86l2h6l2h1g620l2g17l1h26l2g3h75l6g8l7h18l4g9h19l5g9h18l2g12h13l1h3l1h2g12h52l35g1l4g1l" ++
  "1g2h10d6h10g6h14g1h1g10d6h89l7h5l2g34l1g1l5h70l10h31l1h12g4h12g4h1g3h2g10d30l2h5l11h44l" ++
  "4h26l6h10d1g3h34g23l5g2h2g53l10g1h29g2h1g10d6h10d6h7g1l6g2h46g2h12g20h5g47l17g8l1h2g10d" ++
  "41g30l13g2l10d44l14g8h4g36l20g3h5g10d3h3l10d36l2g11l5h43l2h3l8g8h25g4l1g6l1g2l3g1l5h192l" ++
  "64g278l2h6l2h38l2h6l2h8l1h1l1h1l1h1l1h31l2h53l1h7l1g1l3g3l1h7l3g4l2h6l1h3g13l3g2h3l1h7l" ++
  "2g17h24g8h47g17h1g1l2h11g1l15g1h13l3h34g14h33g15h2g1l4g1l2g10l1g1l3g5l6g1l1g1l1g1l1g4l1g" ++
  "11l2g4l5g5l4g1l52g2l7g4h666g22h11g21h1812g2h138g229l6g4l3g2l5h7g38l1h1l5h1l2h56l7h1l1g" ++
  "14h1g23l9h7l1h7l1h7l1h7l1h7l1h7l1h7l1h7l1h79g1l46g34h26g1h89g12h214g26h16g1h4g2l42g5l5g" ++
  "2l3g1h86l2h4g3l1g90l1g4l5h43l1h94l1h16g32l38g9h1g16l31g1h480g6592l64g22157l3h55g9h46l2g" ++
  "269l3g16l10d2l20h47l16g31l2g70l18g8h23g9l2g103l2g82l20h17l1g3l1g4l1g23l10g3h10g6h52l4g8h" ++
  "2g50l18g8h2g10d6h18g6l3g1l1g2l1g10d28l10g23l13g11h1g29l3h4g47l27g1h1l10d4h2g5l1g10l10d5l" ++
  "1h41l14g9h3l1g8l2g2h10d2h4g23l3g1l3g50l1g1l3g2l2g5l2g1l1g1l24h3l2g11l7g3l2g10h6l2h6l2h6l" ++
  "9h7l1h7l1h43l1g14l2g4h115l11g2h10d6h11172l12h23l4h49l8452h366l2h106l38h7l12h5l5h1l1g10l" ++
  "1g13l1h5l1h1l1h2l1h2l1h108l33g363l18g64l2g54l8g32h12l30g6h51g1h19g1h4g4h5l1h135l4h15g10d" ++
  "7g26l6g26l11g89l3h6l2h6l2h6l2h3l3h7g1h7g13h2g2h12l1h26l1h19l1h2l1h15l2h14l34h123l5h3g4h" ++
  "45g3h88g1h13g3h1g47h46g130h29l3h49l15h28g4h32l4g9h20l1g8l1g5h38l5g5h30l1h1g36l4h8l6g42h" ++
  "158l2h10d6h36l4h36l4h40l8h52l11h1g11l1h15l1h7l1h2l1h11l1h15l1h7l1h2l3h52l12h311l9h22l10h" ++
  "8l24h6l1h42l1h9l69h6l2h1l1h44l1h2l3h1l2h23l1h9g23l9g31l8h9g48h19l1h2l5h5g22l6g3h1g26l5h" ++
  "1g26l38h56l4h2g2l16g2h46g1l3g1h2g5h4g4l1h3l1h29l2h3g4h10g7h9g7h29l3g29l3g32h8l1g28l2g4h" ++
  "12g9h54l3h7g22l2h8g19l5h8g18l7h4g12h7g80h73l55h51l13h51l7h6g36l4g8h10d6h10d28l3h6g23l8h" ++
  "2g208h31g1h42l1h3g2h2l16h6l8h9g33h6g29l10g1l8h22l20g22h18l8g38h21l7g20h23l9h3g53l22g4h" ++
  "20g10d1g2l2g1l9h4g45l13g1h5g13h25l7h10d6h3g36l14g1h10d4g1l2g1l8h35l3g1l9h3g48l14g4l11g" ++
  "10d1l1g1l3g1h20g11h18l1h25l19g2l1g62h7l1h1l1h4l1h15l1h10l1g6h47l12g5h10d6h4g1h8l2h2l2h" ++
  "22l1h7l1h2l1h5l1h2g1l7g2h2g2h3g2h1l6h1g5h5l2g2h7g3h5g11h10l1h1l2h1l1h38l1h1l9g1h1g2h1g1h" ++
  "4g1h5g1l1g1l2g1h2g8h2g29h53l18g4l5g10d2g1h2g3l30h48l20g2l1g1l8h10d166h47l7g2h32g4l2g34h" ++
  "48l20g1l11h10d6h13g19h43l13g1l1g6h10d6h20d28h27l2h15g4h10d6g7l185h44l16g100h64l10d9g12h" ++
  "8l2h1l2h8l1h2l1h24l6g1h2g2h4g1l1g1l5g9h10d70h8l2h39l7g2h7g1l1g1l1g27h1l10g40l7g1l13g8h1l" ++
  "11g46l19g1l5g13h73l7h10g86h8g88h33l1g14h10d6h9l1h37l8g1h8g1l5g10h10d19g3h2g30l2h22g1h14g" ++
  "73h7l1h2l1h38l6g3h1g1h2g1h7g1l1g8h10d6h6l1h2l1h32l5g1h2g1h5g1l7h10d6h44l4h10d246h19l6g7h" ++
  "2g1l1g13l1h34l7g3h18g10d1g85h1l15h50g13h1g922l102h111g1h5g11h196l2636h97l2g13h1072l16h1g" ++
  "6l15g10h3995l5h583l6841h30l18g10d1734h569l7h31l1h10d4h2g79l1h10d6h30l2h6g10h48l16g4l2g" ++
  "10h10d1h7g1h21l5h19l432h45l3g10d198h64l27g5h25l2h25l44h75l4h1g1l55g7h4g13l64h2l1g1l1g11h" ++
  "2g2l3g9h7382l41h32l97h115l8701h4l1h7l1h2l1h291l15h1l29h3l2h1l14h4l8h396l2308h107l5h13l3h" ++
  "9l7h10l2h4g3936h240g10d3g3h436g6h23g15h17g15h46g2h23g9h116g60h246g10h39g2h74g8h112g21h" ++
  "70g122h20g12h20g12h87g9h25g135h85l1h71l1h2l2h1l2h2l2h4l1h12l1h1l1h7l1h65l1h4l2h8l1h7l1h" ++
  "28l1h4l1h5l1h1l3h7l1h340l2h25l1g25l1g31l1g25l1g31l1g25l1g31l1g25l1g31l1g25l1g8l2h50d652g" ++
  "15h5g1h15g1104h31l6h6l213h7g1h17g2h7g1h2g1h5g5h62l33h1g112h45l3h7g7l2h10d4h1l1g320h30l1g" ++
  "17h44l4g10d5h1g464h28l4g10d214h30l2g1l10d4h1g192h31l1h3l1g2l1g7l2g5l1g8h2l224h7l1h4l1h2l" ++
  "1h15l1h197l2h16g41h68l7g1l4h10d4h2g785h68g76h61g194h4l1h27l1h2l1h1l2h1l1h10l1h4l1h1l1h1l" ++
  "6h1l4h1l1h1l1h1l1h3l1h2l1h1l2h1l1h1l1h1l1h1l1h1l1h2l1h1l2h4l1h7l1h4l1h4l1h1l1h10l1h17l5h" ++
  "3l1h5l1h17l52h2g270h44g4h100g12h15g2h15g1h15g1h37g10h174g56h29g13h44g4h9g7h2g14h6g154h" ++
  "985g3h17g3h13g3h218g6h12g4h1g15h12g4h56g8h10g6h40g8h30g2h12g4h2g14h9g39h344g8h14g2h13g3h" ++
  "11g3h57g1h1g4h16g2h12g4h10g7h147g1h92g10d1g1029h42720l32h4382l2h5774l2h7473l15h622l2466h" ++
  "542l1506h4939l5h8490l707718h240g196112h"

/-- The runs of the standard. -/
def runs : Runs.Table :=
  Runs.read runTable

/-- The category of a character. -/
def ofChar (c : Char) : Category :=
  ((Runs.mark? runs c.toNat).bind ofMark?).getD .hidden

end Category

/-- A letter of some script. -/
def isLetter (c : Char) : Bool :=
  Category.ofChar c == .letter

/-- A decimal digit of some script. -/
def isDigit (c : Char) : Bool :=
  Category.ofChar c == .digit

/-- A character that can stand in quoted text as it is. -/
def isPrintable (c : Char) : Bool :=
  Category.ofChar c != .hidden

end JobWeave.Text
