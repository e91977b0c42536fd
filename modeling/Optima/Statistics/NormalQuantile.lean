/-!
Quantiles of the standard normal distribution. In the middle they are a rational function of the
distance from one half; towards the ends a rational function of the square root of the logarithm, in
two pieces. The approximation is good to the last digits of a double.
-/

namespace Optima.NormalQuantile

def polynomial (coefficients : List Float) (x : Float) : Float :=
  match coefficients with
  | [] => 0.0
  | c :: rest => rest.foldl (fun value c => value * x + c) c

/-- A fraction of two polynomials; the denominator starts with the coefficient one. -/
structure Fraction where
  numerator : List Float
  denominator : List Float

def Fraction.eval (f : Fraction) (x : Float) : Float :=
  polynomial f.numerator x / polynomial (1.0 :: f.denominator) x

def central : Fraction where
  numerator :=
    [-59.9633501014107895267, 98.0010754185999661536, -56.6762857469070293439,
     13.9312609387279679503, -1.23916583867381258016]
  denominator :=
    [1.95448858338141759834, 4.67627912898881538453, 86.3602421390890590575,
     -225.462687854119370527, 200.260212380060660359, -82.0372256168333339912,
     15.9056225126211695515, -1.18331621121330003142]

def near : Fraction where
  numerator :=
    [4.05544892305962419923, 31.5251094599893866154, 57.1628192246421288162,
     44.0805073893200834700, 14.6849561928858024014, 2.18663306850790267539,
     -0.140256079171354495875, -0.0350424626827848203418, -8.57456785154685413611e-4]
  denominator :=
    [15.7799883256466749731, 45.3907635128879210584, 41.3172038254672030440,
     15.0425385692907503408, 2.50464946208309415979, -0.142182922854787788574,
     -0.0380806407691578277194, -9.33259480895457427372e-4]

/-- The farther piece of the ends. -/
def far : Fraction where
  numerator :=
    [3.23774891776946035970, 6.91522889068984211695, 3.93881025292474443415,
     1.33303460815807542389, 0.201485389549179081538, 0.0123716634817820021358,
     3.01581553508235416007e-4, 2.65806974686737550832e-6, 6.23974539184983293730e-9]
  denominator :=
    [6.02427039364742014255, 3.67983563856160859403, 1.37702099489081330271,
     0.216236993594496635890, 0.0134204006088543189037, 3.28014464682127739104e-4,
     2.89247864745380683936e-6, 6.79019408009981274425e-9]

def edge : Float := 0.13533528323661269189

def rootOfTurn : Float := 2.50662827463100050242

/-- The quantile of a probability in the lower end, without its sign. -/
def lowerEnd (p : Float) : Float :=
  let x := Float.sqrt (-2.0 * Float.log p)
  let z := 1.0 / x
  let correction := if x < 8.0 then z * near.eval z else z * far.eval z
  x - Float.log x / x - correction

def middle (p : Float) : Float :=
  let y := p - 0.5
  let square := y * y
  (y + y * (square * central.eval square)) * rootOfTurn

/-- The number that a standard normal one is below with the given probability. -/
def quantile (p : Float) : Float :=
  if p == 0.0 then -1.0 / 0.0
  else if p == 1.0 then 1.0 / 0.0
  else if p < 0.0 || 1.0 < p || p.isNaN then 0.0 / 0.0
  else if 1.0 - edge < p then lowerEnd (1.0 - p)
  else if edge < p then middle p
  else -(lowerEnd p)

end Optima.NormalQuantile
