/-!
# Sample Programs

Programs of any length that use most of the language. The statements that repeat make no other use
of it than arithmetic and arrays.
-/

namespace MiniPascal.Workload

def declarations : String :=
  "program Big;
type
  Inner = record a: integer; b: string end;
  Point = record x, y: integer; name: string; data: array[1..2] of integer end;
  Vec = array[1..3] of integer;
  Alias = integer;
const
  K1: integer = 42;
  K2, K3: string = \"hello\";
  KC: char = 'q';
  KA: array[1..3] of integer = (1, 2, 3);
  KM: array[1..2, 1..2] of integer = ((1, 2), (3, 4));
  KP: Point = (x: 1; y: 2; name: \"pt\", data: (7, 8));
var
  i, j, n, temp: integer;
  flag: boolean;
  ch: char;
  msg: string;
  niz, b2, c2: array[1..10] of integer;
  sarr: array[1..2] of string;
  mat: array[1..2, 1..2] of integer = ((1, 2), (3, 4));
  pts: array[1..2] of Point;
  p: Point;
  p2: Point = (x: 1; y: 2; name: \"pp\"; data: (5, 6));
  inn: Inner;
procedure DoThing(var number: integer; const s: string; arr2: array[1..3] of integer);
var x: integer;
begin
  x := 5;
  while number <> 0 do begin
    arr2[1] := arr2[2] + 1;
    number := number - 1;
  end;
end;
procedure Noop();
begin i := i; end;
function Add(a, b: integer): integer;
begin Add := a + b; end;
function Greet(s: string): string;
begin Greet := s; end;
"

def firstStatements : String :=
  "begin
  i := 1; j := 2; n := 10; temp := 0;
  flag := true; flag := false; flag := not flag;
  ch := 'w';
  msg := \"hello world\";
  p.x := p.y;
  p := p;
  inn.a := 1;
  b2 := c2;
  sarr[1] := \"yes\";
  niz[1] := niz[2] + niz[3] * 2 - 1;
  pts[1].x := 5;
  temp := pts[1].x;
  temp := p.x + p.y;
  msg := Greet(\"hi\");
  i := Add(i, j);
  i := (i + j) * (n - 1) div 2 mod 3;
  if i = j then begin temp := 1; end else begin temp := 2; end;
  if i <> j then begin
    if i < j then begin temp := 1; end else begin temp := 2; end;
  end;
  while i > 0 do begin i := i - 1; end;
  for j := 1 to n do begin
    for i := j + 1 to n do begin
      if niz[i] > niz[j] then begin
        temp := niz[i]; niz[i] := niz[j]; niz[j] := temp;
      end else begin
        if n > 5 then begin j := i + 2; end;
      end;
    end;
  end;
"

/-- Statements that can be parsed and that the analysis refuses: they have calls among the operands
of a chain and an array as an argument. -/
def uncheckedStatements : String :=
  "  niz[i] := Add(i, j);
  DoThing(i, \"s\", niz);
  i := Add(i, j) + 1;
  if (i < j) and (j > 0) or (i = n) then begin temp := 1; end;
"

/-- The statements of the sample programs that repeat, the `i`-th time. -/
def repeatedStatements (i : Nat) : String :=
  let coefficient := i % 7 + 1
  let target := i % 10 + 1
  let source := (i + 1) % 10 + 1
  s!"  i := i + {coefficient} * j - n div 2;\n  niz[{target}] := niz[{source}] + 1;\n"

/-- A sample program from its statements, `n` repetitions among them. -/
def sampleWith (statements : String) (n : Nat) : String :=
  declarations ++ statements ++ String.join ((List.range n).map repeatedStatements) ++ "end.\n"

/-- A sample program that the analysis accepts. -/
def checkedSample (n : Nat) : String := sampleWith firstStatements n

def parsedSample (n : Nat) : String := sampleWith (firstStatements ++ uncheckedStatements) n

end MiniPascal.Workload
