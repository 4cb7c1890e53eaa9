import Walkthrough.Text.Blank
import Walkthrough.Text.Case

/-!
# Languages

The closed set of languages that a snippet may be in.  Nothing is run: each language
has a fixed text that stands for the output of its programs, and a starter snippet.
-/

namespace Walkthrough

inductive Language where
  | python
  | java
  | typeScript
  | react
  deriving DecidableEq

namespace Language

def all : List Language := [.python, .java, .typeScript, .react]

def id : Language → Text
  | .python => "python".toList
  | .java => "java".toList
  | .typeScript => "typescript".toList
  | .react => "react".toList

def name : Language → Text
  | .python => "Python".toList
  | .java => "Java".toList
  | .typeScript => "TypeScript".toList
  | .react => "React".toList

/-- The language with a given id, in whatever case, between any blanks. -/
def ofId? (t : Text) : Option Language :=
  all.find? fun l => l.id = Text.lowerCase (Text.trim t)

def invalidMessage (t : Text) : Text := "Invalid language value: ".toList ++ t

def extensions : Language → List Text
  | .python => ["py".toList]
  | .java => ["java".toList]
  | .typeScript => ["ts".toList]
  | .react => ["tsx".toList, "jsx".toList]

/-- The language of the files with a given extension, in whatever case. -/
def ofExtension? (t : Text) : Option Language :=
  all.find? fun l => l.extensions.contains (Text.lowerCase t)

/-- What stands for the output of every program in the language. -/
def cannedOutput (l : Language) : Text :=
  "Code executed successfully\nOutput: [Simulated ".toList ++ l.name ++ " execution]".toList

def sampleLines : Language → List String
  | .python =>
    ["# Python Example",
      "def fibonacci(n):",
      "    if n <= 1:",
      "        return n",
      "    return fibonacci(n-1) + fibonacci(n-2)",
      "",
      "result = fibonacci(5)",
      "print(f\"Fibonacci of 5 is: \x7bresult\x7d\")"]
  | .java =>
    ["public class Main \x7b",
      "    public static void main(String[] args) \x7b",
      "        int[] numbers = \x7b1, 2, 3, 4, 5\x7d;",
      "        int sum = 0;",
      "",
      "        for (int num : numbers) \x7b",
      "            sum += num;",
      "        \x7d",
      "",
      "        System.out.println(\"Sum: \" + sum);",
      "    \x7d",
      "\x7d"]
  | .typeScript =>
    ["function factorial(n: number): number \x7b",
      "    if (n <= 1) \x7b",
      "        return 1;",
      "    \x7d",
      "    return n * factorial(n - 1);",
      "\x7d",
      "",
      "const result = factorial(5);",
      "console.log(`Factorial of 5 is: $\x7bresult\x7d`);"]
  | .react =>
    ["import React, \x7b useState \x7d from 'react';",
      "",
      "function Counter() \x7b",
      "    const [count, setCount] = useState(0);",
      "",
      "    return (",
      "        <div>",
      "            <p>Count: \x7bcount\x7d</p>",
      "            <button onClick=\x7b() => setCount(count + 1)\x7d>",
      "                Increment",
      "            </button>",
      "        </div>",
      "    );",
      "\x7d"]

/-- The starter snippet of the language. -/
def sample (l : Language) : Text := Text.join ['\n'] (l.sampleLines.map (·.toList))

end Language
end Walkthrough
