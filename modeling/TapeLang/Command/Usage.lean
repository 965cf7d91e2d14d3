/-!
# Usage and help

The texts that are shown of the command line: how it is used, and what its parts mean. They are laid
out for a terminal of 80 columns.
-/

namespace TapeLang.Command

def programName : String := "bfvm"

def version : String := "0.1.0"

def mainUsage : String :=
  "usage: bfvm [-h] [--version] [--no-color] [-v] \x7brun,check\x7d ...\n"

def mainHelp : String :=
  mainUsage
    ++ "\n"
    ++ "bfvm - interpreter for the eight-instruction tape language\n"
    ++ "\n"
    ++ "positional arguments:\n"
    ++ "  \x7brun,check\x7d    Command to run\n"
    ++ "    run          Execute a program\n"
    ++ "    check        Validate a program without running it\n"
    ++ "\n"
    ++ "options:\n"
    ++ "  -h, --help     show this help message and exit\n"
    ++ "  --version      show program's version number and exit\n"
    ++ "  --no-color     Disable colored output\n"
    ++ "  -v, --verbose  Enable debug logging on stderr\n"
    ++ "\n"
    ++ "examples:\n"
    ++ "  bfvm run hello.b\n"
    ++ "  bfvm run rot13.b -i message.txt -o encoded.txt\n"
    ++ "  bfvm run counter.b -w saturate -W wrap -e set0\n"
    ++ "  bfvm run suspicious.b --max-steps 1000000 --stats\n"
    ++ "  bfvm check program.b\n"

def runUsage : String :=
  "usage: bfvm run [-h] [-i INPUT] [-o OUTPUT] [-w \x7bwrap,saturate,check\x7d]\n"
    ++ "                [-W \x7bwrap,saturate,check\x7d] [-e \x7bnoop,set0,check\x7d]\n"
    ++ "                [-m MAX_MEMORY] [--cell-width CELL_WIDTH]\n"
    ++ "                [--max-steps MAX_STEPS] [-s]\n"
    ++ "                program\n"

def runHelp : String :=
  runUsage
    ++ "\n"
    ++ "positional arguments:\n"
    ++ "  program               Path to the program source\n"
    ++ "\n"
    ++ "options:\n"
    ++ "  -h, --help            show this help message and exit\n"
    ++ "  -i INPUT, --input INPUT\n"
    ++ "                        Input file (\"-\" for stdin)\n"
    ++ "  -o OUTPUT, --output OUTPUT\n"
    ++ "                        Output file (\"-\" for stdout)\n"
    ++ "  -w \x7bwrap,saturate,check\x7d, --overflow \x7bwrap,saturate,check\x7d\n"
    ++ "                        Cell overflow mode\n"
    ++ "  -W \x7bwrap,saturate,check\x7d, --ptr-overflow \x7bwrap,saturate,check\x7d\n"
    ++ "                        Data pointer overflow mode\n"
    ++ "  -e \x7bnoop,set0,check\x7d, --eof-mode \x7bnoop,set0,check\x7d\n"
    ++ "                        Behaviour on reading input after EOF\n"
    ++ "  -m MAX_MEMORY, --max-memory MAX_MEMORY\n"
    ++ "                        Tape length in cells\n"
    ++ "  --cell-width CELL_WIDTH\n"
    ++ "                        Cell width in bits\n"
    ++ "  --max-steps MAX_STEPS\n"
    ++ "                        Abort after this many instructions\n"
    ++ "  -s, --stats           Print an execution summary to stderr\n"

def checkUsage : String :=
  "usage: bfvm check [-h] program\n"

def checkHelp : String :=
  checkUsage
    ++ "\n"
    ++ "positional arguments:\n"
    ++ "  program     Path to the program source\n"
    ++ "\n"
    ++ "options:\n"
    ++ "  -h, --help  show this help message and exit\n"

end TapeLang.Command
