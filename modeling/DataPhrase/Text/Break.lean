/-
# Breaks between characters, words and sentences

What a code point counts as when a text is cut into characters as they are perceived, into words or
into sentences.
-/
import DataPhrase.Text.Derived

namespace DataPhrase.Text

open CodeSet

/-- A kind of code points with its names. -/
structure BreakKind where
  names : List String
  members : CodeSet

/-! ## Characters -/

/-- What extends a character. -/
def graphemeExtending : CodeSet :=
  .union graphemeExtend emojiModifier

/-- Syllables of two letters. -/
def openSyllables : CodeSet :=
  .every 0xAC00 0xD788 28

/-- The kinds for perceived characters. -/
def graphemeBreaks : List BreakKind :=
  [⟨["CR"], .listed "D"⟩,
   ⟨["LF"], .listed "A"⟩,
   ⟨["Control", "CN"],
     .minus (.union (.categories ["Zl", "Zp", "Cc", "Cf"])
         (.minus defaultIgnorable (.minus .all (.categories ["Cn"]))))
       (.union (.listed "A D 200C-200D") (.union prependedMark graphemeExtending))⟩,
   ⟨["Extend", "EX"], graphemeExtending⟩,
   ⟨["ZWJ"], .listed "200D"⟩,
   ⟨["Regional_Indicator", "RI"], regionalIndicator⟩,
   ⟨["Prepend", "PP"],
     .listed "600-605 6DD 70F 890-891 8E2 D4E 110BD 110CD 111C2-111C3 113D1 1193F 11941 11A3A
       11A84-11A89 11D46 11F02"⟩,
   ⟨["SpacingMark", "SM"],
     .minus (.union (.categories ["Mc"]) (.listed "E33 EB3"))
       (.union graphemeExtending
         (.listed "102B-102C 1038 1062-1064 1067-106D 1083 1087-108C 108F 109A-109C 1A61
           1A63-1A64 AA7B AA7D 11720-11721"))⟩,
   ⟨["L"], .listed "1100-115F A960-A97C"⟩,
   ⟨["V"], .listed "1160-11A7 D7B0-D7C6 16D63 16D67-16D6A"⟩,
   ⟨["T"], .listed "11A8-11FF D7CB-D7FB"⟩,
   ⟨["LV"], openSyllables⟩,
   ⟨["LVT"], .minus (.listed "AC00-D7A3") openSyllables⟩]

/-! ## Words -/

/-- What extends a word. -/
def wordExtending : CodeSet :=
  .union graphemeExtend (.union (.categories ["Mc"]) emojiModifier)

/-- Signs in front of numbers. -/
def numberSigns : CodeSet :=
  .listed "600-605 6DD 890-891 8E2 110BD 110CD"

/-- The code points that are written as parts of numbers. -/
def numericBreak : CodeSet :=
  .union (.union (.categories ["Nd"]) numberSigns) (.listed "66B")

/-- Syllables and marks of the two syllabaries that are words of their own. -/
def katakanaBreak : CodeSet :=
  .listed "3031-3035 309B-309C 30A0-30FA 30FC-30FF 31F0-31FF 32D0-32FE 3300-3357 FF66-FF9D
    1AFF0-1AFF3 1AFF5-1AFFB 1AFFD-1AFFE 1B000 1B120-1B122 1B155 1B164-1B167"

/-- Letters of the scripts whose words are not parted in writing. -/
def unpartedLetters : CodeSet :=
  .listed "E01-E3A E40-E4E E81-E82 E84 E86-E8A E8C-EA3 EA5 EA7-EBD EC0-EC4 EC6 EC8-ECE EDC-EDF
    1000-103F 1050-108F 109A-109F 1780-17D3 17D7 17DC-17DD 1950-196D 1970-1974 1980-19AB
    19B0-19C9 19DA 19DE-19DF 1A20-1A5E 1A60-1A7C 1AA0-1AAD A9E0-A9EF A9FA-A9FE AA60-AAC2
    AADB-AADF 11700-1171A 1171D-1172B 1173A-1173B 1173F-11746 3041-3096 309D-309F 1B001-1B11F
    1B132 1B150-1B152 1F200"

/-- Hebrew letters. -/
def hebrewLetters : CodeSet :=
  .listed "5D0-5EA 5EF-5F2 FB1D FB1F-FB28 FB2A-FB36 FB38-FB3C FB3E FB40-FB41 FB43-FB44 FB46-FB4F"

/-- Format characters that are no signs in front of numbers. -/
def formatBreak : CodeSet :=
  .minus (.categories ["Cf"])
    (.union (.listed "200C-200D") (.union prependedMark graphemeExtend))

/-- The kinds for words. -/
def wordBreaks : List BreakKind :=
  [⟨["CR"], .listed "D"⟩,
   ⟨["LF"], .listed "A"⟩,
   ⟨["Newline", "NL"], .listed "B-C 85 2028-2029"⟩,
   ⟨["Extend"], .minus wordExtending (.listed "200D")⟩,
   ⟨["ZWJ"], .listed "200D"⟩,
   ⟨["Regional_Indicator", "RI"], regionalIndicator⟩,
   ⟨["Format", "FO"], .minus formatBreak (.listed "200B")⟩,
   ⟨["Katakana", "KA"], katakanaBreak⟩,
   ⟨["Hebrew_Letter", "HL"], hebrewLetters⟩,
   ⟨["ALetter", "LE"],
     .minus
       (.union alphabetic
         (.listed "2C2-2C5 2D2-2D7 2DE-2DF 2E5-2EB 2ED 2EF-2FF 55A-55C 55E 58A 5F3 70F A708-A716
           A720-A721 A789-A78A AB5B"))
       (.union (.union ideographic katakanaBreak)
         (.union unpartedLetters (.union wordExtending hebrewLetters)))⟩,
   ⟨["Single_Quote", "SQ"], .listed "27"⟩,
   ⟨["Double_Quote", "DQ"], .listed "22"⟩,
   ⟨["MidNumLet", "MB"], .listed "2E 2018-2019 2024 FE52 FF07 FF0E"⟩,
   ⟨["MidLetter", "ML"], .listed "3A B7 387 55F 5F4 2027 FE13 FE55 FF1A"⟩,
   ⟨["MidNum", "MN"],
     .listed "2C 3B 37E 589 60C-60D 66C 7F8 2044 FE10 FE14 FE50 FE54 FF0C FF1B"⟩,
   ⟨["Numeric", "NU"], numericBreak⟩,
   ⟨["ExtendNumLet", "EX"], .listed "5F 202F 203F-2040 2054 FE33-FE34 FE4D-FE4F FF3F"⟩,
   ⟨["WSegSpace"], .listed "20 1680 2000-2006 2008-200A 205F 3000"⟩]

/-! ## Sentences -/

/-- What extends a sentence. -/
def sentenceExtending : CodeSet :=
  .union graphemeExtend (.union (.categories ["Mc"]) (.listed "200D"))

/-- Small letters that begin no sentence. -/
def sentenceLower : CodeSet :=
  .minus lowercase (.union graphemeExtend (.listed "10D0-10FA 10FD-10FF"))

/-- Letters that may begin a sentence. -/
def sentenceUpper : CodeSet :=
  .minus (.union uppercase (.categories ["Lt"])) (.listed "1C90-1CBF")

/-- The kinds for sentences. -/
def sentenceBreaks : List BreakKind :=
  [⟨["CR"], .listed "D"⟩,
   ⟨["LF"], .listed "A"⟩,
   ⟨["Extend", "EX"], sentenceExtending⟩,
   ⟨["Sep", "SE"], .listed "85 2028-2029"⟩,
   ⟨["Format", "FO"], formatBreak⟩,
   ⟨["Sp", "SP"], .listed "9 B-C 20 A0 1680 2000-200A 202F 205F 3000"⟩,
   ⟨["Lower", "LO"], sentenceLower⟩,
   ⟨["Upper", "UP"], sentenceUpper⟩,
   ⟨["OLetter", "LE"],
     .minus (.union alphabetic (.listed "5F3 70F"))
       (.union (.union sentenceLower sentenceUpper) sentenceExtending)⟩,
   ⟨["Numeric", "NU"], .union numericBreak (.listed "66C")⟩,
   ⟨["ATerm", "AT"], .listed "2E 2024 FE52 FF0E"⟩,
   ⟨["SContinue", "SC"],
     .listed "2C-2D 3A-3B 37E 55D 60C-60D 7F8 1802 1808 2013-2014 3001 FE10-FE11 FE13-FE14
       FE31-FE32 FE50-FE51 FE54-FE55 FE58 FE63 FF0C-FF0D FF1A-FF1B FF64"⟩,
   ⟨["STerm", "ST"], .minus sentenceTerminal (.listed "2E 2024 FE52 FF0E")⟩,
   ⟨["Close", "CL"],
     .union (.categories ["Ps", "Pe", "Pi", "Pf"])
       (.listed "22 27 275B-2760 2E00-2E01 2E06-2E08 2E0B 1F676-1F678")⟩]

end DataPhrase.Text
