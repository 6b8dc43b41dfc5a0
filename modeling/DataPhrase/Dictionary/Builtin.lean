/-
# Built-in functions

The functions on times, numbers and texts that every dictionary may start from.
-/
import DataPhrase.Dictionary.Snapshot

namespace DataPhrase.Snapshot

/-- A function entry with a template for every target. -/
def entry (s n sql pipe frame : String) (description : Option String := none) : Entry where
  sectionName := s
  name := n
  definition :=
    { category := .function
      templates := { sql := some ⟨sql⟩, pipe := some ⟨pipe⟩, frame := some ⟨frame⟩ }
      description := description }

/-- The built-in functions, sorted by section and name. -/
def builtins : List Entry :=
  [entry "math" "abs" "ABS(\x7b0\x7d)"
     "abs(\x7b0\x7d)"
     "abs(\x7b0\x7d)",
   entry "math" "coalesce" "COALESCE(\x7b0\x7d, \x7b1\x7d)"
     "dplyr::coalesce(\x7b0\x7d, \x7b1\x7d)"
     "fcoalesce(\x7b0\x7d, \x7b1\x7d)",
   entry "math" "round" "ROUND(\x7b0\x7d, \x7b1\x7d)"
     "round(\x7b0\x7d, \x7b1\x7d)"
     "round(\x7b0\x7d, \x7b1\x7d)",
   entry "stats" "percentile" "PERCENTILE_CONT(\x7b1\x7d) WITHIN GROUP (ORDER BY \x7b0\x7d)"
     "quantile(\x7b0\x7d, \x7b1\x7d, na.rm = TRUE)"
     "quantile(\x7b0\x7d, \x7b1\x7d, na.rm = TRUE)"
     (some "continuous percentile; also renders median"),
   entry "text" "lower" "LOWER(\x7b0\x7d)"
     "tolower(\x7b0\x7d)"
     "tolower(\x7b0\x7d)",
   entry "text" "upper" "UPPER(\x7b0\x7d)"
     "toupper(\x7b0\x7d)"
     "toupper(\x7b0\x7d)",
   entry "time" "day_of" "EXTRACT(DAY FROM \x7b0\x7d)"
     "lubridate::day(\x7b0\x7d)"
     "mday(\x7b0\x7d)",
   entry "time" "month_of" "EXTRACT(MONTH FROM \x7b0\x7d)"
     "lubridate::month(\x7b0\x7d)"
     "month(\x7b0\x7d)",
   entry "time" "month_start" "DATE_TRUNC('month', \x7b0\x7d)"
     "lubridate::floor_date(\x7b0\x7d, \"month\")"
     "lubridate::floor_date(\x7b0\x7d, \"month\")",
   entry "time" "quarter_of" "EXTRACT(QUARTER FROM \x7b0\x7d)"
     "lubridate::quarter(\x7b0\x7d)"
     "quarter(\x7b0\x7d)",
   entry "time" "week_of" "EXTRACT(WEEK FROM \x7b0\x7d)"
     "lubridate::isoweek(\x7b0\x7d)"
     "isoweek(\x7b0\x7d)",
   entry "time" "year_of" "EXTRACT(YEAR FROM \x7b0\x7d)"
     "lubridate::year(\x7b0\x7d)"
     "year(\x7b0\x7d)"]

/-- The dictionary of the built-in functions, which counts as one registration. -/
def withBuiltins : Snapshot := ⟨1, builtins⟩

end DataPhrase.Snapshot
