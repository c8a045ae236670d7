/-
  Formula.CommandLine.LogLevel

  The level of the log, as it is asked for by name.

    * `LogLevel.constantName t` — the name of a constant of the log that a text
      stands for: the text in capitals.
    * `LogLevel.check? setting` — whether a log can be kept at a level.

  A name that the log does not know stands for the usual level, so a name is refused
  only if it is that of a constant which is no level: the pattern of a line and the
  table of the styles of a pattern.
-/
import Formula.Fault

namespace Formula.LogLevel

/-- The capitals of a character. Basic letters and the few others whose capitals are
    basic letters have them; every other character stays as it is, since the names of
    constants hold basic letters only. -/
def capitals : Char → Text
  | 'ß' => ['S', 'S']
  | 'ı' => ['I']
  | 'ſ' => ['S']
  | 'ﬀ' => ['F', 'F']
  | 'ﬁ' => ['F', 'I']
  | 'ﬂ' => ['F', 'L']
  | 'ﬃ' => ['F', 'F', 'I']
  | 'ﬄ' => ['F', 'F', 'L']
  | 'ﬅ' | 'ﬆ' => ['S', 'T']
  | c => [c.toUpper]

/-- The name of a constant that a text stands for. -/
def constantName (t : Text) : Text :=
  t.flatMap capitals

def usual : Text := "INFO".toList

/-- The constant that holds the pattern of a line. -/
def patternName : Text := "BASIC_FORMAT".toList

/-- The pattern of a line. -/
def pattern : Text := "%(levelname)s:%(name)s:%(message)s".toList

/-- The constant that holds the table of styles. -/
def stylesName : Text := "_STYLES".toList

/-- The table of styles as it is shown. -/
def styles : Text :=
  "\x7b'%': (<class 'logging.PercentStyle'>, ".toList ++ quoted pattern ++
    "), '\x7b': (<class 'logging.StrFormatStyle'>, ".toList ++
    quoted "\x7blevelname\x7d:\x7bname\x7d:\x7bmessage\x7d".toList ++
    "), '$': (<class 'logging.StringTemplateStyle'>, ".toList ++
    quoted "$\x7blevelname\x7d:$\x7bname\x7d:$\x7bmessage\x7d".toList ++ ")\x7d".toList

/-- Whether a log can be kept at the level that a setting asks for; a setting that was
    left unfilled asks for none. -/
def check? : Option Text → Except Fault Unit
  | none => .error .unfilledLogLevel
  | some t =>
    if constantName t = patternName then .error (.unknownLevel pattern)
    else if constantName t = stylesName then .error (.notLevel styles)
    else .ok ()

theorem check?_usual : check? (some usual) = .ok () := by
  rfl

end Formula.LogLevel
