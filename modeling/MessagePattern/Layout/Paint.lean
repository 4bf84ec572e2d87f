import MessagePattern.Layout.Print

/-!
Colour for terminals, as control sequences around text.
-/

namespace MessagePattern.Layout

/-! ## Paint -/

inductive Colour where
  | rgb (red green blue : UInt8)
  | brightRed
  | brightYellow
  | brightBlue
  deriving DecidableEq, Repr

def controlSequence (parameters : String) : String :=
  "\x1b[" ++ parameters ++ "m"

/-- The parameters of the sequence that begins a colour. -/
def Colour.parameters : Colour → String
  | rgb red green blue =>
    "38;2;" ++ toString red.toNat ++ ";" ++ toString green.toNat ++ ";" ++ toString blue.toNat
  | brightRed => "91"
  | brightYellow => "93"
  | brightBlue => "94"

/-- The text in a colour, after which the default colour is back. -/
def Colour.paint (colour : Colour) (text : String) : String :=
  controlSequence colour.parameters ++ text ++ controlSequence "39"

/-- The text in bold, after which all attributes are reset. -/
def bold (text : String) : String :=
  controlSequence "1" ++ text ++ controlSequence "0"

/-! ## Themes -/

/-- How the fragments of a role look. -/
inductive Look where
  /-- The text as it stands. -/
  | asIs
  /-- A line feed, whatever the text is. -/
  | lineFeed
  | coloured (colour : Colour)
  | boldColoured (colour : Colour)
  deriving DecidableEq, Repr

def Look.apply : Look → String → String
  | asIs, text => text
  | lineFeed, _ => "\n"
  | coloured colour, text => colour.paint text
  | boldColoured colour, text => bold (colour.paint text)

/-- The look of each role. -/
def Theme := Role → Look

namespace Theme

def plain : Theme := fun _ => .asIs

def terminal : Theme
  | .neutral | .indent | .text => .asIs
  | .newline => .lineFeed
  | .quote => .coloured (.rgb 0xad 0x7f 0xa8)
  | .bracket => .boldColoured (.rgb 0x99 0x99 0x99)
  | .argument => .boldColoured (.rgb 0x72 0x9f 0xcf)
  | .kind => .boldColoured (.rgb 0x34 0x65 0xa4)
  | .style => .coloured (.rgb 0x4e 0x9a 0x06)
  | .offset => .boldColoured (.rgb 0xad 0x7f 0xa8)
  | .selector => .boldColoured (.rgb 0x8f 0x59 0x02)
  | .marker => .boldColoured (.rgb 0xcc 0x00 0x00)

/-- The text as the theme shows the role. -/
def style (theme : Theme) (role : Role) (text : String) : String :=
  (theme role).apply text

end Theme

/-- The pattern of a message as the theme shows it. -/
def render (theme : Theme) (message : Message) : String :=
  String.join ((fragments message).map fun fragment => theme.style fragment.role fragment.content)

end MessagePattern.Layout
